import BenchmarkLibs.Packing.Safety
import BenchmarkLibs.Packing.Fixture
import BenchmarkLibs.Packing.PackedStruct
import BenchmarkLibs.Packing.Nonius
import BenchmarkLibs.Particles.Workload
import BenchmarkLibs.Particles.Trajectory
import BenchmarkLibs.Particles.Draws
import BenchmarkLibs.GoogleBenchmark.Threads
import BenchmarkLibs.GoogleBenchmark.Iterations
import BenchmarkLibs.Base.Moments
import BenchmarkLibs.GoogleBenchmark.JsonReport
import BenchmarkLibs.Celero.Commands
import BenchmarkLibs.Celero.Archive
import BenchmarkLibs.Hayai.Main

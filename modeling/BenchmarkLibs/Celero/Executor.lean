import BenchmarkLibs.Base.Storage
import BenchmarkLibs.Celero.Statistics

/-!
# Celero's executor

Experiments are registered in groups, each group with a baseline. An experiment is run once for each problem
space its fixture asks for, as many times as it has samples; a result keeps what was measured. What a fixture
measures, and what it does to the world, is a parameter.
-/

namespace BenchmarkLibs.Celero

open Fallible Storage

/-- A registered fixture: what `getExperimentValues` returns of a new one, and what `run` of a new one measures,
given the threads, the iterations and the experiment value. -/
structure Factory (W : Type) where
  getExperimentValues : List (Int × Nat)
  run : Nat → Nat → Int → W → Nat × W

/-- `TestFixture::Constants::NoProblemSpaceValue`, that is `INT64_MIN`. -/
def NoProblemSpaceValue : Int := -2 ^ 63

structure Result (K : Type) where
  problemSpaceValue : Int
  problemSpaceIterations : Nat
  stats : Statistics K
  complete : Bool

structure Experiment (W K : Type) where
  name : String
  samples : Nat
  iterations : Nat
  threads : Nat
  factory : Factory W
  isBaselineCase : Bool
  results : List (Result K)

structure Benchmark (W K : Type) where
  name : String
  baseline : Option (Experiment W K)
  experiments : List (Experiment W K)

/-- What is printed and passed to the callbacks, in order. -/
inductive Line (K : Type)
  | rowHeader (group experiment : String) (problemSpaceValue : Int) (samples iterations : Nat)
  | mustHaveSample (group experiment : String)
  | row (baselineMeasurement usPerCall callsPerSecond : Extended K)
  | resultComplete (group experiment : String) (r : Result K)
  | experimentComplete (group experiment : String)

structure Env (W K : Type) where
  world : W
  lines : List (Line K)

def Env.print {W K : Type} (env : Env W K) (line : Line K) : Env W K :=
  { env with lines := env.lines ++ [line] }

inductive Stop
  | exit (message : String)
  | fault (fault : Fault)

variable {W K : Type} [Field K] [LinearOrder K]

/-! ### Registration -/

structure Registration (W : Type) where
  groupName : String
  benchmarkName : String
  samples : Nat
  iterations : Nat
  threads : Nat
  factory : Factory W

def Registration.experiment (p : Registration W) (isBaselineCase : Bool) : Experiment W K where
  name := p.benchmarkName
  samples := p.samples
  iterations := p.iterations
  threads := p.threads
  factory := p.factory
  isBaselineCase := isBaselineCase
  results := []

/-- `TestVector::operator[]` of a name: the group is changed where there is one, else added at the end. -/
def updateGroup (groupName : String) (f : Benchmark W K → Benchmark W K) :
    List (Benchmark W K) → List (Benchmark W K)
  | [] => [f ⟨groupName, none, []⟩]
  | bm :: rest => if bm.name = groupName then f bm :: rest else bm :: updateGroup groupName f rest

def RegisterTest (p : Registration W) (tests : List (Benchmark W K)) : List (Benchmark W K) :=
  updateGroup p.groupName (fun bm => { bm with experiments := bm.experiments ++ [p.experiment false] }) tests

def RegisterBaseline (p : Registration W) (tests : List (Benchmark W K)) : List (Benchmark W K) :=
  updateGroup p.groupName (fun bm => { bm with baseline := some (p.experiment true) }) tests

inductive Register (W : Type)
  | test (p : Registration W)
  | baseline (p : Registration W)

def Register.apply (tests : List (Benchmark W K)) : Register W → List (Benchmark W K)
  | .test p => RegisterTest p tests
  | .baseline p => RegisterBaseline p tests

/-- The `TestVector` after all registrations. -/
def registered (registrations : List (Register W)) : List (Benchmark W K) :=
  registrations.foldl Register.apply []

/-! ### Results -/

def Result.getUsPerCall (r : Result K) : Extended K := r.stats.min / r.problemSpaceIterations

def Result.getCallsPerSecond (r : Result K) : Extended K := 1 / (r.getUsPerCall * .finite 1e-6)

def Experiment.addProblemSpace (e : Experiment W K) (x : Int) (iterations : Nat) : Experiment W K :=
  { e with results := e.results ++ [⟨x, iterations, .empty, false⟩] }

/-- With no result yet, asking for their number adds one. -/
def Experiment.getResultSize (e : Experiment W K) : Nat × Experiment W K :=
  let e := if e.results.isEmpty then e.addProblemSpace NoProblemSpaceValue e.iterations else e
  (e.results.length, e)

def Experiment.getResultByValue (e : Experiment W K) (x : Int) : Option (Result K) :=
  e.results.find? fun r => r.problemSpaceValue = x

/-- `Result::getBaselineMeasurement`, of a result of the experiment. -/
def Experiment.getBaselineMeasurement (bm : Benchmark W K) (e : Experiment W K) (r : Result K) :
    Except Stop (Extended K) :=
  if e.isBaselineCase then .ok 1
  else
    match bm.baseline with
    | none => .ok (.finite (-1))
    | some baseline =>
      match baseline.getResultByValue r.problemSpaceValue with
      | none => .error (.fault .nullPointer)
      | some b => .ok (r.getUsPerCall / b.getUsPerCall)

/-! ### The executor -/

/-- `testRunner`, `samples` times. -/
def runSamples (f : Factory W) (threads iterations : Nat) (value : Int) :
    Nat → Statistics K → W → Statistics K × W
  | 0, stats, world => (stats, world)
  | samples + 1, stats, world =>
    let (testTime, world) := f.run threads iterations value world
    runSamples f threads iterations value samples (stats.addSample testTime) world

def ExecuteProblemSpace (bm : Benchmark W K) (e : Experiment W K) (r : Result K) (env : Env W K) :
    Result K × Env W K :=
  if 0 < e.samples then
    let (stats, world) :=
      runSamples e.factory e.threads r.problemSpaceIterations r.problemSpaceValue e.samples r.stats env.world
    ({ r with stats := stats, complete := true }, { env with world := world })
  else (r, env.print (.mustHaveSample bm.name e.name))

def TableResult (bm : Benchmark W K) (e : Experiment W K) (r : Result K) (env : Env W K) :
    Except Stop (Env W K) := do
  let measurement ← e.getBaselineMeasurement bm r
  .ok (env.print (.row measurement r.getUsPerCall r.getCallsPerSecond))

/-- The body of the loop over the results. -/
def runResult (bm : Benchmark W K) (e : Experiment W K) (r : Result K) (env : Env W K) :
    Except Stop (Result K × Env W K) := do
  let env := env.print (.rowHeader bm.name e.name r.problemSpaceValue e.samples r.problemSpaceIterations)
  let (r, env) := ExecuteProblemSpace bm e r env
  let env ← TableResult bm e r env
  .ok (r, env.print (.resultComplete bm.name e.name r))

/-- The problem spaces are added anew each time; `fallback` is what is added where there is none. -/
def Experiment.populate (e : Experiment W K) (fallback : Int) : Experiment W K :=
  let e := e.factory.getExperimentValues.foldl
    (fun e i => e.addProblemSpace i.1 (if i.2 ≠ 0 then i.2 else e.iterations)) e
  let (size, e) := e.getResultSize
  if size = 0 then e.addProblemSpace fallback 0 else e

def Experiment.execute (bm : Benchmark W K) (e : Experiment W K) (fallback : Int) (env : Env W K) :
    Except Stop (Experiment W K × Env W K) := do
  let e := e.populate fallback
  let (results, env) ← forEach (runResult bm e) e.results env
  .ok ({ e with results := results }, env.print (.experimentComplete bm.name e.name))

def RunBaseline (bm : Benchmark W K) (env : Env W K) : Except Stop (Benchmark W K × Env W K) :=
  match bm.baseline with
  | none => .error (.exit s!"No Baseline case defined for \"{bm.name}\".  Exiting.")
  | some e => do
    let (e, env) ← e.execute bm NoProblemSpaceValue env
    .ok ({ bm with baseline := some e }, env)

/-- What `Run` of an experiment does to the baseline first. -/
def ensureBaseline (bm : Benchmark W K) (env : Env W K) : Except Stop (Benchmark W K × Env W K) :=
  match bm.baseline with
  | none => .error (.fault .nullPointer)
  | some baseline =>
    let (size, baseline) := baseline.getResultSize
    let bm := { bm with baseline := some baseline }
    if size = 0 ∨ (baseline.results.head?.map Result.complete) = some false then RunBaseline bm env
    else .ok (bm, env)

/-- `Run` of the experiment number `i`. -/
def RunExperiment (i : Nat) (bm : Benchmark W K) (env : Env W K) : Except Stop (Benchmark W K × Env W K) := do
  let (bm, env) ← ensureBaseline bm env
  match bm.experiments[i]? with
  | none => .error (.fault .outOfRange)
  | some e => do
    let (e, env) ← e.execute bm 0 env
    .ok ({ bm with experiments := bm.experiments.set i e }, env)

def RunExperiments (bm : Benchmark W K) (env : Env W K) : Except Stop (Benchmark W K × Env W K) :=
  (List.range bm.experiments.length).foldlM (fun s i => RunExperiment i s.1 s.2) (bm, env)

def RunBenchmark (bm : Benchmark W K) (env : Env W K) : Except Stop (Benchmark W K × Env W K) := do
  let (bm, env) ← RunBaseline bm env
  RunExperiments bm env

def RunAllBaselines (tests : List (Benchmark W K)) (env : Env W K) :
    Except Stop (List (Benchmark W K) × Env W K) :=
  forEach RunBaseline tests env

def RunAllExperiments (tests : List (Benchmark W K)) (env : Env W K) :
    Except Stop (List (Benchmark W K) × Env W K) :=
  forEach RunExperiments tests env

def RunAll (tests : List (Benchmark W K)) (env : Env W K) : Except Stop (List (Benchmark W K) × Env W K) := do
  let (tests, env) ← RunAllBaselines tests env
  RunAllExperiments tests env

/-! ### What can be asked for by name -/

/-- Runs `f` on the first group of the name, if there is one. -/
def onGroup (benchmarkName : String) (f : Benchmark W K → Env W K → Except Stop (Benchmark W K × Env W K)) :
    List (Benchmark W K) → Env W K → Except Stop (List (Benchmark W K) × Env W K)
  | [], env => .ok ([], env)
  | bm :: rest, env =>
    if bm.name = benchmarkName then do
      let (bm, env) ← f bm env
      .ok (bm :: rest, env)
    else do
      let (rest, env) ← onGroup benchmarkName f rest env
      .ok (bm :: rest, env)

/-- The first experiment of the name; the iterator is dereferenced unchecked. -/
def RunNamed (experimentName : String) (bm : Benchmark W K) (env : Env W K) :
    Except Stop (Benchmark W K × Env W K) :=
  match bm.experiments.findIdx? fun e => e.name == experimentName with
  | none => .error (.fault .outOfRange)
  | some i => RunExperiment i bm env

/-- The calls of `executor`. -/
inductive Command
  | runAll
  | run (benchmarkName : String)
  | runOne (benchmarkName experimentName : String)

def Command.apply (s : List (Benchmark W K) × Env W K) :
    Command → Except Stop (List (Benchmark W K) × Env W K)
  | .runAll => RunAll s.1 s.2
  | .run benchmarkName => onGroup benchmarkName RunBenchmark s.1 s.2
  | .runOne benchmarkName experimentName => onGroup benchmarkName (RunNamed experimentName) s.1 s.2

end BenchmarkLibs.Celero

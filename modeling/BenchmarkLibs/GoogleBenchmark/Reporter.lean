import BenchmarkLibs.Base.Moments
import BenchmarkLibs.GoogleBenchmark.Families

/-!
# What is reported of a benchmark's repetitions

`RunSpecifiedBenchmarks` runs the benchmarks that the filter selects and hands the repetitions of each to a
reporter. Where there are several, a reporter adds two runs of its own, with the means and with the standard
deviations that `ComputeStats` accumulates. The square root is the library's, as a parameter.
-/

namespace BenchmarkLibs.GoogleBenchmark

open Fallible

variable {K : Type} [Field K] [LinearOrder K]

/-! ### Statistics -/

def InInt64 (n : Int) : Prop := -2 ^ 63 ≤ n ∧ n < 2 ^ 63

instance (n : Int) : Decidable (InInt64 n) := inferInstanceAs (Decidable (_ ∧ _))

/-- A result of type `int64_t`. -/
def int64 (n : Int) : Except BuilderFault Int := if InInt64 n then .ok n else .error .intOverflow

theorem int64_eq_ok {n m : Int} : int64 n = .ok m ↔ InInt64 n ∧ m = n := by
  unfold int64
  split
  · rename_i hfits
    exact ⟨fun h => ⟨hfits, (Except.ok.inj h).symm⟩, fun h => congrArg Except.ok h.2.symm⟩
  · rename_i hfits
    exact ⟨fun h => (by cases h), fun h => absurd h.1 hfits⟩

theorem int64_faults (n : Int) : FaultsIn (int64 n) (· = .intOverflow) := by
  intro fault h
  unfold int64 at h
  split at h <;> cases h
  rfl

/-- A part of a sum of equal numbers fits where the sum does. -/
theorem InInt64.part {w : Int} {k n : Nat} (hle : k ≤ n) (h : InInt64 (w * n)) : InInt64 (w * k) := by
  have hcast : (k : Int) ≤ n := Int.ofNat_le.mpr hle
  obtain ⟨hlow, hhigh⟩ := h
  rcases le_total 0 w with hw | hw
  · have hpart := mul_le_mul_of_nonneg_left hcast hw
    have hpos := mul_nonneg hw (Int.natCast_nonneg k)
    exact ⟨by omega, by omega⟩
  · have hpart := mul_le_mul_of_nonpos_left hcast hw
    have hneg := mul_nonpos_of_nonpos_of_nonneg hw (Int.natCast_nonneg k)
    exact ⟨by omega, by omega⟩

structure Stat1 (K : Type) where
  numsamples_ : Int
  sum_ : K
  sum_squares_ : K

def Stat1.clear : Stat1 K := ⟨0, 0, 0⟩

/-- A sample of value `dat` and weight `w`. -/
def Stat1.sample (dat : K) (w : Int) : Stat1 K := ⟨w, w * dat, w * (dat * dat)⟩

/-- `operator+=` -/
def Stat1.add (s stat : Stat1 K) : Except BuilderFault (Stat1 K) := do
  let numsamples_ ← int64 (s.numsamples_ + stat.numsamples_)
  .ok ⟨numsamples_, s.sum_ + stat.sum_, s.sum_squares_ + stat.sum_squares_⟩

def Stat1.Mean (s : Stat1 K) : K :=
  if s.numsamples_ = 0 then 0 else s.sum_ * (1 / s.numsamples_)

def Sqrt (sqrt : K → K) (dat : K) : K := if dat < 0 then 0 else sqrt dat

def Stat1.StdDev (sqrt : K → K) (s : Stat1 K) : K :=
  if s.numsamples_ = 0 then 0
  else
    let avg_squares := s.sum_squares_ * (1 / s.numsamples_)
    Sqrt sqrt (avg_squares - s.Mean * s.Mean)

namespace BenchmarkReporter

structure Run (K : Type) extends Report K where
  benchmark_name : List Char

def Run.empty : Run K where
  benchmark_name := []
  report_label := []
  iterations := 1
  time_unit := .kNanosecond
  real_accumulated_time := 0
  cpu_accumulated_time := 0
  bytes_per_second := 0
  items_per_second := 0

structure Accumulators (K : Type) where
  real_accumulated_time_stat : Stat1 K
  cpu_accumulated_time_stat : Stat1 K
  bytes_per_second_stat : Stat1 K
  items_per_second_stat : Stat1 K

def Accumulators.clear : Accumulators K := ⟨.clear, .clear, .clear, .clear⟩

/-- One turn of the loop that populates the accumulators. -/
def accumulate (front : Run K) (stats : Accumulators K) (run : Run K) : Except BuilderFault (Accumulators K) := do
  check (front.benchmark_name = run.benchmark_name) "(reports[0].benchmark_name) == (run.benchmark_name)"
  check (front.iterations = run.iterations) "(run_iterations) == (run.iterations)"
  let real_accumulated_time_stat ← stats.real_accumulated_time_stat.add
    (.sample (run.real_accumulated_time / run.iterations) run.iterations)
  let cpu_accumulated_time_stat ← stats.cpu_accumulated_time_stat.add
    (.sample (run.cpu_accumulated_time / run.iterations) run.iterations)
  let items_per_second_stat ← stats.items_per_second_stat.add (.sample run.items_per_second run.iterations)
  let bytes_per_second_stat ← stats.bytes_per_second_stat.add (.sample run.bytes_per_second run.iterations)
  .ok ⟨real_accumulated_time_stat, cpu_accumulated_time_stat, bytes_per_second_stat, items_per_second_stat⟩

/-- The label of the runs, if they have the same one. -/
def commonLabel (front : Run K) (reports : List (Run K)) : List Char :=
  if ∀ run ∈ reports, run.report_label = front.report_label then front.report_label else []

def meanData (stats : Accumulators K) (front : Run K) (reports : List (Run K)) : Run K :=
  { (Run.empty : Run K) with
    benchmark_name := front.benchmark_name ++ "_mean".toList
    iterations := front.iterations
    real_accumulated_time := stats.real_accumulated_time_stat.Mean * front.iterations
    cpu_accumulated_time := stats.cpu_accumulated_time_stat.Mean * front.iterations
    bytes_per_second := stats.bytes_per_second_stat.Mean
    items_per_second := stats.items_per_second_stat.Mean
    report_label := commonLabel front reports }

def stddevData (sqrt : K → K) (stats : Accumulators K) (front : Run K) (reports : List (Run K)) : Run K :=
  { (Run.empty : Run K) with
    benchmark_name := front.benchmark_name ++ "_stddev".toList
    report_label := commonLabel front reports
    iterations := 0
    real_accumulated_time := stats.real_accumulated_time_stat.StdDev sqrt
    cpu_accumulated_time := stats.cpu_accumulated_time_stat.StdDev sqrt
    bytes_per_second := stats.bytes_per_second_stat.StdDev sqrt
    items_per_second := stats.items_per_second_stat.StdDev sqrt }

/-- The runs `mean_data` and `stddev_data`. -/
def ComputeStats (sqrt : K → K) (reports : List (Run K)) : Except BuilderFault (Run K × Run K) := do
  check (2 ≤ reports.length) "reports.size() >= 2"
  match reports with
  | [] => .error (.check "reports.size() >= 2")
  | front :: _ =>
    let stats ← reports.foldlM (accumulate front) .clear
    .ok (meanData stats front reports, stddevData sqrt stats front reports)

/-- The runs that a reporter prints for the reports of one benchmark. -/
def reportsCp (sqrt : K → K) (reports : List (Run K)) : Except BuilderFault (List (Run K)) :=
  if 2 ≤ reports.length then do
    let (mean_data, stddev_data) ← ComputeStats sqrt reports
    .ok (reports ++ [mean_data, stddev_data])
  else .ok reports

/-- The label and the multiplier of `GetTimeUnitAndMultiplier`. -/
def timeUnitLabel : TimeUnit → List Char
  | .kMillisecond => ['m', 's']
  | .kMicrosecond => ['u', 's']
  | .kNanosecond => ['n', 's']

def timeUnitMultiplier : TimeUnit → K
  | .kMillisecond => ((1000 : ℕ) : K)
  | .kMicrosecond => ((1000000 : ℕ) : K)
  | .kNanosecond => ((1000000000 : ℕ) : K)

/-- A time as it is printed: for one iteration, unless the run has none. -/
def Run.perIteration (run : Run K) (time : K) : K :=
  if run.iterations = 0 then time else time / run.iterations

/-! ### The sums of the loop -/

/-- The sums for samples of one weight. -/
def samples (w : Int) (ys : List K) : Stat1 K := ⟨w * ys.length, w * ys.sum, w * (ys.map fun y => y * y).sum⟩

omit [LinearOrder K] in
theorem samples_add {w : Int} {ys : List K} {y : K} {stat : Stat1 K} :
    (samples w ys).add (.sample y w) = .ok stat ↔
      InInt64 (w * (ys.length + 1 : Nat)) ∧ stat = samples w (ys ++ [y]) := by
  have hcount : w * ys.length + w = w * (ys.length + 1 : Nat) := by
    push_cast
    ring
  have hsums : samples w (ys ++ [y]) = ⟨w * (ys.length + 1 : Nat), w * ys.sum + w * y,
      w * (ys.map fun y => y * y).sum + w * (y * y)⟩ := by
    rw [samples, List.length_append, List.length_singleton]
    simp only [List.sum_append, List.map_append, List.sum_singleton, List.map_singleton, mul_add]
  rw [Stat1.add, Stat1.sample, samples, hcount, bind_eq_ok, hsums]
  constructor
  · rintro ⟨n, hn, hstat⟩
    obtain ⟨hfits, rfl⟩ := int64_eq_ok.mp hn
    exact ⟨hfits, (Except.ok.inj hstat).symm⟩
  · rintro ⟨hfits, rfl⟩
    exact ⟨_, int64_eq_ok.mpr ⟨hfits, rfl⟩, rfl⟩

section Weights

variable [IsStrictOrderedRing K]

/-- The weights cancel. -/
theorem mean_samples {w : Int} (hw : w ≠ 0) (ys : List K) : (samples w ys).Mean = Moments.mean ys := by
  have hweight : (w : K) ≠ 0 := Int.cast_ne_zero.mpr hw
  cases ys with
  | nil => simp [samples, Stat1.Mean, Moments.mean]
  | cons y ys =>
    have hlength : ((y :: ys).length : K) ≠ 0 := Nat.cast_ne_zero.mpr (Nat.succ_ne_zero _)
    have hcount : w * (y :: ys).length ≠ 0 := mul_ne_zero hw (Int.natCast_ne_zero.mpr (Nat.succ_ne_zero _))
    rw [Stat1.Mean, samples, if_neg hcount, Moments.mean, Int.cast_mul, Int.cast_natCast]
    field_simp

theorem variance_eq (ys : List K) (hne : ys ≠ []) :
    (ys.map fun y => y * y).sum / ys.length - Moments.mean ys * Moments.mean ys =
      Moments.central 2 ys / ys.length := by
  have hlength : (ys.length : K) ≠ 0 := Nat.cast_ne_zero.mpr (List.length_pos_iff.mpr hne).ne'
  have hsquares : Moments.deviations 0 2 ys = (ys.map fun y => y * y).sum := by
    simp only [Moments.deviations, sub_zero, sq]
  have hsum := Moments.length_mul_mean ys
  have hshift := Moments.deviations_two_shift 0 (Moments.mean ys) ys
  rw [zero_add, hsquares, Moments.deviations_one, mul_zero, sub_zero, ← hsum] at hshift
  rw [Moments.central, hshift]
  field_simp
  ring

theorem variance_nonneg (ys : List K) : 0 ≤ Moments.central 2 ys / ys.length := by
  refine div_nonneg (List.sum_nonneg ?_) (Nat.cast_nonneg _)
  intro x hx
  obtain ⟨y, -, rfl⟩ := List.mem_map.mp hx
  exact sq_nonneg _

/-- In exact arithmetic nothing is cut off before the root is taken. -/
theorem stdDev_samples (sqrt : K → K) {w : Int} (hw : w ≠ 0) {ys : List K} (hne : ys ≠ []) :
    (samples w ys).StdDev sqrt = sqrt (Moments.central 2 ys / ys.length) := by
  have hweight : (w : K) ≠ 0 := Int.cast_ne_zero.mpr hw
  have hpos := List.length_pos_iff.mpr hne
  have hlength : (ys.length : K) ≠ 0 := Nat.cast_ne_zero.mpr hpos.ne'
  have hcount : (samples w ys).numsamples_ ≠ 0 :=
    mul_ne_zero hw (Int.natCast_ne_zero.mpr hpos.ne')
  have havg : (samples w ys).sum_squares_ * (1 / (samples w ys).numsamples_) =
      (ys.map fun y => y * y).sum / ys.length := by
    rw [samples, Int.cast_mul, Int.cast_natCast]
    field_simp
  rw [Stat1.StdDev, if_neg hcount, havg]
  show Sqrt sqrt _ = _
  rw [mean_samples hw, variance_eq ys hne, Sqrt, if_neg (not_lt.mpr (variance_nonneg ys))]

end Weights

/-- The accumulators for some runs of `w` iterations each. -/
def Accumulators.of (w : Int) (reports : List (Run K)) : Accumulators K where
  real_accumulated_time_stat := samples w (reports.map fun run => run.real_accumulated_time / run.iterations)
  cpu_accumulated_time_stat := samples w (reports.map fun run => run.cpu_accumulated_time / run.iterations)
  bytes_per_second_stat := samples w (reports.map fun run => run.bytes_per_second)
  items_per_second_stat := samples w (reports.map fun run => run.items_per_second)

/-- Whether a run is of the same benchmark and has as many iterations. -/
def SameRun (front run : Run K) : Prop :=
  front.benchmark_name = run.benchmark_name ∧ front.iterations = run.iterations

omit [LinearOrder K] in
theorem accumulate_eq_ok {front run : Run K} {reports : List (Run K)} {stats : Accumulators K} :
    accumulate front (.of front.iterations reports) run = .ok stats ↔ SameRun front run ∧
      InInt64 (front.iterations * (reports.length + 1 : Nat)) ∧ stats = .of front.iterations (reports ++ [run]) := by
  have hof : Accumulators.of front.iterations (reports ++ [run]) = ⟨
      samples front.iterations ((reports.map fun run : Run K => run.real_accumulated_time / run.iterations) ++
        [run.real_accumulated_time / run.iterations]),
      samples front.iterations ((reports.map fun run : Run K => run.cpu_accumulated_time / run.iterations) ++
        [run.cpu_accumulated_time / run.iterations]),
      samples front.iterations ((reports.map fun run => run.bytes_per_second) ++ [run.bytes_per_second]),
      samples front.iterations ((reports.map fun run => run.items_per_second) ++ [run.items_per_second])⟩ := by
    simp only [Accumulators.of, List.map_append, List.map_singleton]
  rw [hof]
  simp only [accumulate, bind_eq_ok, check_eq_ok]
  constructor
  · rintro ⟨-, hname, -, hiterations, real, hreal, cpu, hcpu, items, hitems, bytes, hbytes, hstats⟩
    rw [← hiterations] at hreal hcpu hitems hbytes
    obtain ⟨hfits, rfl⟩ := samples_add.mp hreal
    obtain ⟨-, rfl⟩ := samples_add.mp hcpu
    obtain ⟨-, rfl⟩ := samples_add.mp hitems
    obtain ⟨-, rfl⟩ := samples_add.mp hbytes
    rw [List.length_map] at hfits
    exact ⟨⟨hname, hiterations⟩, hfits, by rw [← Except.ok.inj hstats, hiterations]⟩
  · rintro ⟨⟨hname, hiterations⟩, hfits, rfl⟩
    have hadd : ∀ (metric : Run K → K) (y : K), (samples front.iterations (reports.map metric)).add
        (.sample y run.iterations) = .ok (samples front.iterations (reports.map metric ++ [y])) := by
      intro metric y
      rw [← hiterations]
      exact samples_add.mpr ⟨by rwa [List.length_map], rfl⟩
    exact ⟨(), hname, (), hiterations, _, hadd _ _, _, hadd _ _, _, hadd _ _, _, hadd _ _, rfl⟩

omit [LinearOrder K] in
/-- What the loop accumulates of the reports behind those it has seen. -/
theorem foldlM_accumulate {front : Run K} {reports rest : List (Run K)} {stats : Accumulators K}
    (h : InInt64 (front.iterations * reports.length)) :
    rest.foldlM (accumulate front) (.of front.iterations reports) = .ok stats ↔
      (∀ run ∈ rest, SameRun front run) ∧ InInt64 (front.iterations * (reports ++ rest).length) ∧
        stats = .of front.iterations (reports ++ rest) := by
  induction rest generalizing reports with
  | nil =>
    rw [List.append_nil]
    exact ⟨fun hstats => ⟨by simp, h, (Except.ok.inj hstats).symm⟩, fun hstats => congrArg Except.ok hstats.2.2.symm⟩
  | cons run rest ih =>
    have hlength : (reports ++ [run]).length = reports.length + 1 := by simp
    have hsplit : reports ++ run :: rest = reports ++ [run] ++ rest := by simp
    rw [List.foldlM_cons, bind_eq_ok, List.forall_mem_cons, hsplit]
    constructor
    · rintro ⟨stats', hrun, hrest⟩
      obtain ⟨hsame, hfits, rfl⟩ := accumulate_eq_ok.mp hrun
      rw [← hlength] at hfits
      obtain ⟨hrest, hall, hstats⟩ := (ih hfits).mp hrest
      exact ⟨⟨hsame, hrest⟩, hall, hstats⟩
    · rintro ⟨⟨hsame, hrest⟩, hall, hstats⟩
      have hfits : InInt64 (front.iterations * (reports ++ [run]).length) := hall.part (by simp)
      exact ⟨_, accumulate_eq_ok.mpr ⟨hsame, hlength ▸ hfits, rfl⟩, (ih hfits).mpr ⟨hrest, hall, hstats⟩⟩

omit [LinearOrder K] in
theorem accumulate_faults {front run : Run K} (h : SameRun front run) (stats : Accumulators K) :
    FaultsIn (accumulate front stats run) (· = .intOverflow) := by
  have hadd : ∀ s stat : Stat1 K, FaultsIn (s.add stat) (· = .intOverflow) :=
    fun s stat => (int64_faults _).bind fun n _ => .ok _ _
  rw [accumulate, check_of h.1, check_of h.2, ok_bind, ok_bind]
  refine (hadd _ _).bind fun real _ => (hadd _ _).bind fun cpu _ => ?_
  exact (hadd _ _).bind fun items _ => (hadd _ _).bind fun bytes _ => .ok _ _

omit [LinearOrder K] in
theorem clear_eq (w : Int) : (Accumulators.clear : Accumulators K) = .of w [] := by
  simp [Accumulators.clear, Accumulators.of, samples, Stat1.clear]

/-- What a reader compares of the runs: the times of one iteration and the rates. -/
def metrics : List (Run K → K) :=
  [fun run => run.perIteration run.real_accumulated_time, fun run => run.perIteration run.cpu_accumulated_time,
    fun run => run.bytes_per_second, fun run => run.items_per_second]

/-- `ComputeStats` succeeds exactly for two or more runs of one benchmark with the same iterations, the sum of
which it can count. -/
theorem computeStats_eq_ok {sqrt : K → K} {reports : List (Run K)} {mean stddev : Run K} :
    ComputeStats sqrt reports = .ok (mean, stddev) ↔ 2 ≤ reports.length ∧
      ∃ front, reports.head? = some front ∧ (∀ run ∈ reports, SameRun front run) ∧
        InInt64 (front.iterations * reports.length) ∧
        mean = meanData (.of front.iterations reports) front reports ∧
        stddev = stddevData sqrt (.of front.iterations reports) front reports := by
  by_cases hlength : 2 ≤ reports.length
  · cases reports with
    | nil => simp at hlength
    | cons front rest =>
      have hnone : InInt64 (front.iterations * ([] : List (Run K)).length) := by
        rw [List.length_nil, Nat.cast_zero, mul_zero]
        decide
      rw [ComputeStats, check_of hlength, ok_bind, clear_eq front.iterations, bind_eq_ok]
      constructor
      · rintro ⟨stats, hstats, hresult⟩
        obtain ⟨hsame, hfits, rfl⟩ := (foldlM_accumulate hnone).mp hstats
        cases hresult
        exact ⟨hlength, front, rfl, hsame, hfits, rfl, rfl⟩
      · rintro ⟨-, front', hfront, hsame, hfits, rfl, rfl⟩
        cases hfront
        exact ⟨_, (foldlM_accumulate hnone).mpr ⟨hsame, hfits, rfl⟩, rfl⟩
  · constructor
    · intro h
      rw [ComputeStats.eq_def, check_not hlength] at h
      cases h
    · rintro ⟨hlength', -⟩
      exact absurd hlength' hlength

omit [LinearOrder K] in
theorem perIteration_eq {run : Run K} (h : run.iterations ≠ 0) (time : K) :
    run.perIteration time = time / run.iterations := if_neg h

omit [LinearOrder K] in
theorem map_perIteration {reports : List (Run K)} (h : ∀ run ∈ reports, run.iterations ≠ 0) (time : Run K → K) :
    (reports.map fun run => run.perIteration (time run)) = reports.map fun run => time run / run.iterations :=
  List.map_congr_left fun run hrun => perIteration_eq (h run hrun) _

section Specification

variable [IsStrictOrderedRing K]

theorem metrics_meanData {front : Run K} {reports : List (Run K)} (hfront : front.iterations ≠ 0)
    (h : ∀ run ∈ reports, run.iterations ≠ 0) {metric : Run K → K} (hmetric : metric ∈ metrics) :
    metric (meanData (.of front.iterations reports) front reports) = Moments.mean (reports.map metric) := by
  have hweight : (front.iterations : K) ≠ 0 := Int.cast_ne_zero.mpr hfront
  have htime : ∀ stat time : K, stat = time → (if front.iterations = 0 then stat * front.iterations
      else stat * front.iterations / front.iterations) = time := by
    rintro stat time rfl
    rw [if_neg hfront, mul_div_cancel_right₀ stat hweight]
  simp only [metrics, List.mem_cons, List.not_mem_nil, or_false] at hmetric
  obtain rfl | rfl | rfl | rfl := hmetric
  · rw [map_perIteration h]
    exact htime _ _ (mean_samples hfront _)
  · rw [map_perIteration h]
    exact htime _ _ (mean_samples hfront _)
  · exact mean_samples hfront _
  · exact mean_samples hfront _

theorem metrics_stddevData (sqrt : K → K) {front : Run K} {reports : List (Run K)} (hne : reports ≠ [])
    (hfront : front.iterations ≠ 0) (h : ∀ run ∈ reports, run.iterations ≠ 0) {metric : Run K → K}
    (hmetric : metric ∈ metrics) :
    metric (stddevData sqrt (.of front.iterations reports) front reports) =
      sqrt (Moments.central 2 (reports.map metric) / reports.length) := by
  have hroot : ∀ f : Run K → K, (samples front.iterations (reports.map f)).StdDev sqrt =
      sqrt (Moments.central 2 (reports.map f) / reports.length) := by
    intro f
    have hmap : reports.map f ≠ [] := fun hnil => hne (List.map_eq_nil_iff.mp hnil)
    rw [stdDev_samples sqrt hfront hmap, List.length_map]
  simp only [metrics, List.mem_cons, List.not_mem_nil, or_false] at hmetric
  obtain rfl | rfl | rfl | rfl := hmetric
  · rw [map_perIteration h]
    exact hroot _
  · rw [map_perIteration h]
    exact hroot _
  · exact hroot _
  · exact hroot _

/-- **`ComputeStats` on all inputs.** It succeeds exactly for two or more runs of one benchmark with the same
iterations, whose sum is an `int64_t`. If there are any iterations, each time of one iteration and each rate of the
first run it makes is the mean over the runs, and that of the second one their standard deviation (of the whole
population); both have the label of the runs, or none where these differ. -/
theorem computeStats_spec (sqrt : K → K) (reports : List (Run K)) :
    ((∃ result, ComputeStats sqrt reports = .ok result) ↔ 2 ≤ reports.length ∧
      (∀ run ∈ reports, ∀ run' ∈ reports, SameRun run run') ∧
      ∀ run ∈ reports, InInt64 (run.iterations * reports.length)) ∧
    ∀ mean stddev, ComputeStats sqrt reports = .ok (mean, stddev) →
      ((∀ run ∈ reports, run.iterations ≠ 0) → ∀ metric ∈ metrics,
        metric mean = Moments.mean (reports.map metric) ∧
        metric stddev = sqrt (Moments.central 2 (reports.map metric) / reports.length)) ∧
      stddev.report_label = mean.report_label ∧
      (∀ label, (∀ run ∈ reports, run.report_label = label) → mean.report_label = label) ∧
      (∀ run ∈ reports, ∀ run' ∈ reports, run.report_label ≠ run'.report_label → mean.report_label = []) := by
  refine ⟨⟨?_, ?_⟩, ?_⟩
  · rintro ⟨⟨mean, stddev⟩, h⟩
    obtain ⟨hlength, front, -, hsame, hfits, -⟩ := computeStats_eq_ok.mp h
    refine ⟨hlength, fun run hrun run' hrun' => ?_, fun run hrun => ?_⟩
    · obtain ⟨hname, hiterations⟩ := hsame run hrun
      obtain ⟨hname', hiterations'⟩ := hsame run' hrun'
      exact ⟨hname.symm.trans hname', hiterations.symm.trans hiterations'⟩
    · rw [← (hsame run hrun).2]
      exact hfits
  · rintro ⟨hlength, hsame, hfits⟩
    have hne : reports ≠ [] := by
      rintro rfl
      simp at hlength
    have hfront := List.head?_eq_some_head hne
    have hmem := List.head_mem hne
    exact ⟨(_, _), computeStats_eq_ok.mpr ⟨hlength, _, hfront, hsame _ hmem, hfits _ hmem, rfl, rfl⟩⟩
  · intro mean stddev h
    obtain ⟨hlength, front, hfront, -, -, rfl, rfl⟩ := computeStats_eq_ok.mp h
    have hmem := List.mem_of_head? hfront
    refine ⟨fun hiterations metric hmetric => ⟨?_, ?_⟩, rfl, fun label hlabel => ?_, fun run hrun run' hrun' hother => ?_⟩
    · exact metrics_meanData (hiterations front hmem) hiterations hmetric
    · exact metrics_stddevData sqrt (List.ne_nil_of_mem hmem) (hiterations front hmem) hiterations hmetric
    · have hcommon : ∀ run ∈ reports, run.report_label = front.report_label :=
        fun run hrun => (hlabel run hrun).trans (hlabel front hmem).symm
      exact (if_pos hcommon).trans (hlabel front hmem)
    · exact if_neg fun hcommon => hother ((hcommon run hrun).trans (hcommon run' hrun').symm)

end Specification

/-- Ten iterations, of one second each or of three. -/
def tenIterations (seconds : ℚ) : Run ℚ :=
  ⟨⟨[], 10, .kNanosecond, 10 * seconds, 10 * seconds, 0, 0⟩, "Update".toList⟩

theorem computeStats_spec_two : ∃ mean stddev,
    ComputeStats id [tenIterations 1, tenIterations 3] = .ok (mean, stddev) ∧
      mean.perIteration mean.real_accumulated_time = 2 ∧ stddev.perIteration stddev.real_accumulated_time = 1 := by
  have hspec := computeStats_spec id [tenIterations 1, tenIterations 3]
  obtain ⟨⟨mean, stddev⟩, hrun⟩ := hspec.1.mpr ⟨by decide, by simp [SameRun, tenIterations],
    by simp [InInt64, tenIterations]⟩
  obtain ⟨hmean, hstddev⟩ := (hspec.2 mean stddev hrun).1 (by simp [tenIterations]) _ List.mem_cons_self
  refine ⟨mean, stddev, hrun, hmean.trans ?_, hstddev.trans ?_⟩
  · norm_num [Moments.mean, Run.perIteration, tenIterations]
  · norm_num [Moments.central, Moments.deviations, Moments.mean, Run.perIteration, tenIterations]

end BenchmarkReporter

/-! ### Running the benchmarks -/

/-- `Context`, without the width of the name field, which only the console reporter reads. -/
structure Context (K : Type) where
  num_cpus : Int
  mhz_per_cpu : K
  cpu_scaling_enabled : Bool

structure BenchmarkReporter (σ K : Type) where
  ReportContext : Context K → σ → Except BuilderFault (Bool × σ)
  ReportRuns : List (BenchmarkReporter.Run K) → σ → Except BuilderFault σ
  Finalize : σ → σ

variable [IsStrictOrderedRing K] [FloorSemiring K]

/-- What a call of `RunSpecifiedBenchmarks` depends on: the regular expressions, the flags, the machine, and what the
tries measure of the `k`-th benchmark. -/
structure Surroundings (K : Type) where
  compile : String → Option (String → Bool)
  format : Format K
  flags : Flags K
  benchmark_list_tests : Bool
  benchmark_filter : String
  context : Context K
  outcome : Nat → Nat → Nat → Outcome K

/-- The reports of the `k`-th benchmark that is run. -/
def Surroundings.reports (world : Surroundings K) (k : Nat) (b : String × Instance K) :
    List (BenchmarkReporter.Run K) :=
  (runBenchmark b.2 world.flags (world.outcome k)).reports.map fun report => ⟨report, b.1.toList⟩

variable {σ : Type}

/-- What is printed of the benchmarks, a name on each line. -/
def PrintBenchmarkList (world : Surroundings K) (families : List (BenchmarkImp K)) : List Char :=
  match world.compile "." with
  | none => []
  | some accepts => (findBenchmarks world.format accepts families).2.flatMap fun b => b.1.toList ++ ['\n']

def RunMatchingBenchmarks (world : Surroundings K) (families : List (BenchmarkImp K)) (spec : String)
    (reporter : BenchmarkReporter σ K) (s : σ) : Except BuilderFault σ :=
  if spec = "" then .ok s
  else
    match world.compile spec with
    | none => .ok s
    | some accepts => do
      let benchmarks := (findBenchmarks world.format accepts families).2
      let (started, s) ← reporter.ReportContext world.context s
      if started then
        benchmarks.zipIdx.foldlM (fun s b => reporter.ReportRuns (world.reports b.2 b.1) s) s
      else .ok s

/-- The pattern that the filter stands for. -/
def Surroundings.spec (world : Surroundings K) : String :=
  if world.benchmark_filter = "" ∨ world.benchmark_filter = "all" then "." else world.benchmark_filter

/-- What it prints itself, and the reporter behind it. -/
def RunSpecifiedBenchmarks (world : Surroundings K) (families : List (BenchmarkImp K))
    (reporter : BenchmarkReporter σ K) (s : σ) : Except BuilderFault (List Char × σ) :=
  if world.benchmark_list_tests then .ok (PrintBenchmarkList world families, s)
  else do
    let s ← RunMatchingBenchmarks world families world.spec reporter s
    .ok ([], reporter.Finalize s)

omit [Field K] [LinearOrder K] [IsStrictOrderedRing K] [FloorSemiring K] in
theorem Surroundings.spec_ne (world : Surroundings K) : world.spec ≠ "" := by
  rw [Surroundings.spec]
  split
  · decide
  · rename_i hfilter
    exact fun hempty => hfilter (.inl hempty)

/-- All repetitions of a benchmark are of the same iterations, as `ComputeStats` demands it. -/
theorem Surroundings.reports_iterations (world : Surroundings K) (k : Nat) (b : String × Instance K) :
    ∃ iters, ∀ run ∈ world.reports k b, run.benchmark_name = b.1.toList ∧ run.iterations = iters := by
  by_cases hrepetitions : 1 ≤ world.flags.benchmark_repetitions
  · obtain ⟨shorter, iters, -, -, -, hreports, -⟩ := runBenchmark_settles b.2 world.flags (world.outcome k) hrepetitions
    refine ⟨(iters * b.2.threads : Nat), ?_⟩
    intro run hrun
    rw [Surroundings.reports, hreports] at hrun
    obtain ⟨report, hreport, rfl⟩ := List.mem_map.mp hrun
    obtain ⟨n, -, rfl⟩ := List.mem_map.mp hreport
    exact ⟨rfl, rfl⟩
  · have hnone : world.flags.benchmark_repetitions.toNat = 0 := by omega
    refine ⟨0, ?_⟩
    intro run hrun
    rw [Surroundings.reports, runBenchmark, hnone] at hrun
    cases hrun

theorem Surroundings.reportsCp_faults (world : Surroundings K) (sqrt : K → K) (k : Nat) (b : String × Instance K) :
    FaultsIn (BenchmarkReporter.reportsCp sqrt (world.reports k b)) (· = .intOverflow) := by
  obtain ⟨iters, hsame⟩ := world.reports_iterations k b
  rw [BenchmarkReporter.reportsCp]
  split
  · rename_i hlength
    refine FaultsIn.bind ?_ fun result _ => .ok _ _
    rw [BenchmarkReporter.ComputeStats.eq_def, check_of hlength, ok_bind]
    cases hreports : world.reports k b with
    | nil => simp [hreports] at hlength
    | cons front rest =>
      rw [hreports] at hsame
      have hfront := hsame front List.mem_cons_self
      refine FaultsIn.bind (.foldlM (fun run hrun stats => ?_) _) fun stats _ => .ok _ _
      exact BenchmarkReporter.accumulate_faults ⟨hfront.1.trans (hsame run hrun).1.symm,
        hfront.2.trans (hsame run hrun).2.symm⟩ stats
  · exact .ok _ _

/-- Whether the iterations of all runs together are an `int64_t`, where they are added. -/
def Counted (reports : List (BenchmarkReporter.Run K)) : Prop :=
  2 ≤ reports.length → ∀ run ∈ reports, InInt64 (run.iterations * reports.length)

/-- What is found wrong with the reports of a benchmark is at most that their iterations are too many to be added. -/
theorem Surroundings.reportsCp_ok (world : Surroundings K) (sqrt : K → K) (k : Nat) (b : String × Instance K) :
    (∃ runs, BenchmarkReporter.reportsCp sqrt (world.reports k b) = .ok runs) ↔ Counted (world.reports k b) := by
  obtain ⟨iters, hsame⟩ := world.reports_iterations k b
  have hall : ∀ run ∈ world.reports k b, ∀ run' ∈ world.reports k b, BenchmarkReporter.SameRun run run' :=
    fun run hrun run' hrun' => ⟨(hsame run hrun).1.trans (hsame run' hrun').1.symm,
      (hsame run hrun).2.trans (hsame run' hrun').2.symm⟩
  rw [BenchmarkReporter.reportsCp, Counted]
  split
  · rename_i hlength
    rw [forall_prop_of_true hlength]
    have hstats := (BenchmarkReporter.computeStats_spec sqrt (world.reports k b)).1
    constructor
    · rintro ⟨runs, hruns⟩
      obtain ⟨result, hresult, -⟩ := bind_eq_ok.mp hruns
      exact (hstats.mp ⟨result, hresult⟩).2.2
    · intro hfits
      obtain ⟨⟨mean, stddev⟩, hresult⟩ := hstats.mpr ⟨hlength, hall, hfits⟩
      exact ⟨_, by rw [hresult]; rfl⟩
  · rename_i hlength
    exact ⟨fun _ hlength' => absurd hlength' hlength, fun _ => ⟨_, rfl⟩⟩

end BenchmarkLibs.GoogleBenchmark

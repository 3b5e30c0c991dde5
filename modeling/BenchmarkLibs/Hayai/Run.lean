import BenchmarkLibs.Base.LeastSquares
import BenchmarkLibs.Hayai.Filter
import Mathlib.Data.Int.ModEq
import Mathlib.Data.Rat.Floor

/-!
# Running the tests

Before the tests are run, runs of an empty test tell the overhead of a run, as a line over the number of its
iterations. The overhead is taken off the time of each run that is reported.
-/

namespace BenchmarkLibs.Hayai

/-- Of `uint64_t` and of `std::size_t`. -/
def word : Nat := 2 ^ 64

/-- The time point of the clock on POSIX systems. -/
structure TimePoint where
  tv_sec : Int
  tv_nsec : Int

def Duration (startTime endTime : TimePoint) : Nat :=
  let tv_sec := endTime.tv_sec - startTime.tv_sec
  let timeDiff : TimePoint :=
    if endTime.tv_nsec < startTime.tv_nsec then ⟨tv_sec - 1, endTime.tv_nsec + 1000000000 - startTime.tv_nsec⟩
    else ⟨tv_sec, endTime.tv_nsec - startTime.tv_nsec⟩
  ((timeDiff.tv_sec * 1000000000 + timeDiff.tv_nsec) % word).toNat

variable {σ : Type}

section Clock

-- the clock of the system, which changes the state as every call does
variable (Now : σ → TimePoint × σ)

def TestFactory.Run (test : TestFactory σ) (iterations : Nat) (s : σ) : Nat × σ :=
  let s := test.SetUp s
  let start := Now s
  let s := test.TestBody^[iterations] start.2
  let stop := Now s
  (Duration start.1 stop.1, test.TearDown stop.2)

/-- The times of several runs after each other. -/
def times (run : σ → Nat × σ) : Nat → σ → List Nat × σ
  | 0, s => ([], s)
  | count + 1, s =>
    let first := run s
    let rest := times run count first.2
    (first.1 :: rest.1, rest.2)

/-! ### Calibration -/

structure CalibrationModel where
  Scale : Nat
  Slope : Nat
  YIntercept : Nat

def CalibrationModel.GetCalibration (model : CalibrationModel) (iterations : Nat) : Nat :=
  (model.YIntercept + iterations * model.Slope % word / model.Scale) % word

def HAYAI_CALIBRATION_INTERESECT_RUNS : Nat := 10000

def HAYAI_CALIBRATION_RUNS : Nat := 10

def HAYAI_CALIBRATION_SCALE : Nat := 1000000

/-- The test with empty functions. -/
def emptyTest : TestFactory σ := ⟨id, id, id, id, id⟩

def interceptAvg (intercepts : List Nat) : Nat :=
  intercepts.foldl (fun sum intercept => (sum + intercept) % word) 0 / HAYAI_CALIBRATION_INTERESECT_RUNS

/-- The slope of the line through the sample points `(x[p], t[p])`. -/
def calibratedSlope (intercept : Nat) (points : List (Nat × Nat)) : Nat :=
  let sums := points.foldr (fun p sums : Nat × Nat =>
    ((sums.1 + p.1 * p.1) % word, (sums.2 + p.1 * ((p.2 + word - intercept) % word)) % word)) (0, 0)
  sums.2 / sums.1

/-- The scaled numbers of iterations of the points that a turn samples. -/
def calibrationPoints : List Nat := [1, 2, 5, 10, 15, 20]

def samplePoints (run : Nat → σ → Nat × σ) : List Nat → σ → List (Nat × Nat) × σ
  | [], s => ([], s)
  | x :: xs, s =>
    let first := run (x * HAYAI_CALIBRATION_SCALE) s
    let rest := samplePoints run xs first.2
    ((x, first.1) :: rest.1, rest.2)

/-- The intercept and the sample points, measured on the empty test. -/
def calibrationRuns (s : σ) : (Nat × List (Nat × Nat)) × σ :=
  let test : TestFactory σ := emptyTest
  let intercepts := times (test.Run Now 0) HAYAI_CALIBRATION_INTERESECT_RUNS s
  let xs := (List.replicate HAYAI_CALIBRATION_RUNS calibrationPoints).flatten
  let points := samplePoints (test.Run Now) xs intercepts.2
  ((interceptAvg intercepts.1, points.1), points.2)

def GetCalibrationModel (s : σ) : CalibrationModel × σ :=
  let runs := calibrationRuns Now s
  (⟨HAYAI_CALIBRATION_SCALE, calibratedSlope runs.1.1 runs.1.2, runs.1.1⟩, runs.2)

end Clock

/-! ### Results -/

structure TestResult where
  runTimes : List Nat
  iterations : Nat
  timeTotal : Nat
  timeRunMin : Nat
  timeRunMax : Nat

/-- A turn of the loop of the constructor. -/
def TestResult.summarize (result : TestResult) (isFirst : Bool) (run : Nat) : TestResult :=
  { result with
    timeTotal := (result.timeTotal + run) % word
    timeRunMin := if isFirst ∨ run < result.timeRunMin then run else result.timeRunMin
    timeRunMax := if isFirst ∨ result.timeRunMax < run then run else result.timeRunMax }

def TestResult.create (runTimes : List Nat) (iterations : Nat) : TestResult :=
  let result : TestResult := ⟨runTimes, iterations, 0, word - 1, 0⟩
  match runTimes with
  | [] => result
  | run :: runs => runs.foldl (fun result run => result.summarize false run) (result.summarize true run)

/-! ### All tests -/

/-- A call that every outputter gets. -/
inductive Call (σ : Type)
  | Begin (enabledCount disabledCount : Nat)
  | BeginTest (descriptor : TestDescriptor σ)
  | SkipDisabledTest (descriptor : TestDescriptor σ)
  | EndTest (descriptor : TestDescriptor σ) (result : TestResult)
  | End (enabledCount disabledCount : Nat)

/-- One run of a test on an instance of its own, and its time without the overhead. -/
def runOnce (Now : σ → TimePoint × σ) (overheadCalibration : Nat) (descriptor : TestDescriptor σ) (s : σ) : Nat × σ :=
  let s := descriptor.Factory.CreateTest s
  let run := descriptor.Factory.Run Now descriptor.Iterations s
  (if overheadCalibration < run.1 then run.1 - overheadCalibration else 0, descriptor.Factory.delete run.2)

/-- Whether the test matches the filters `_include`, if there are any. -/
def isIncluded (filters : List (List Char)) (descriptor : TestDescriptor σ) : Bool :=
  if 0 < filters.length then
    filters.any fun text => text <:+: descriptor.FixtureName ++ '.' :: descriptor.TestName
  else true

/-- A turn of the loop over the tests. -/
def runTest (Now : σ → TimePoint × σ) (calibrationModel : CalibrationModel) (filters : List (List Char))
    (descriptor : TestDescriptor σ) (s : σ) : List (Call σ) × σ :=
  if !isIncluded filters descriptor then ([], s)
  else if descriptor.IsDisabled then ([.SkipDisabledTest descriptor], s)
  else
    let overheadCalibration := calibrationModel.GetCalibration descriptor.Iterations
    let runs := times (runOnce Now overheadCalibration descriptor) descriptor.Runs s
    ([.BeginTest descriptor, .EndTest descriptor (.create runs.1 descriptor.Iterations)], runs.2)

def runTests (Now : σ → TimePoint × σ) (calibrationModel : CalibrationModel) (filters : List (List Char)) :
    List (TestDescriptor σ) → σ → List (Call σ) × σ
  | [], s => ([], s)
  | descriptor :: tests, s =>
    let first := runTest Now calibrationModel filters descriptor s
    let rest := runTests Now calibrationModel filters tests first.2
    (first.1 ++ rest.1, rest.2)

def RunAllTests (Now : σ → TimePoint × σ) (filters : List (List Char)) (tests : List (TestDescriptor σ)) (s : σ) :
    List (Call σ) × σ :=
  let disabledCount := tests.countP fun descriptor => descriptor.IsDisabled
  let enabledCount := tests.length - disabledCount
  let model := GetCalibrationModel Now s
  let run := runTests Now model.1 filters tests model.2
  (.Begin enabledCount disabledCount :: (run.1 ++ [.End enabledCount disabledCount]), run.2)

/-! ### The calibrated line -/

/-- The points as the line is fitted to them. -/
def samples (points : List (Nat × Nat)) : List (ℚ × ℚ) :=
  points.map fun p => ((p.1 : ℚ), (p.2 : ℚ))

def squares (points : List (Nat × Nat)) : Nat :=
  (points.map fun p => p.1 * p.1).sum

/-- What `sumProducts` is meant to hold. -/
def products (intercept : Nat) (points : List (Nat × Nat)) : Int :=
  (points.map fun p => (p.1 : Int) * (p.2 - intercept)).sum

theorem sumSquares_samples (points : List (Nat × Nat)) :
    LeastSquares.sumSquares (samples points) = squares points := by
  induction points with
  | nil => simp [LeastSquares.sumSquares, samples, squares]
  | cons p points ih =>
    simp only [LeastSquares.sumSquares, samples, squares, List.map_cons, List.sum_cons] at ih ⊢
    rw [ih]
    push_cast
    ring

theorem sumProducts_samples (intercept : Nat) (points : List (Nat × Nat)) :
    LeastSquares.sumProducts (intercept : ℚ) (samples points) = products intercept points := by
  induction points with
  | nil => simp [LeastSquares.sumProducts, samples, products]
  | cons p points ih =>
    simp only [LeastSquares.sumProducts, samples, products, List.map_cons, List.sum_cons] at ih ⊢
    rw [ih]
    push_cast
    ring

theorem interceptAvg_lt (intercepts : List Nat) : interceptAvg intercepts < word := by
  have hfold : ∀ (intercepts : List Nat) (sum : Nat), sum < word →
      intercepts.foldl (fun sum intercept => (sum + intercept) % word) sum < word := by
    intro intercepts
    induction intercepts with
    | nil => exact fun sum hsum => hsum
    | cons intercept intercepts ih => exact fun sum _ => ih _ (Nat.mod_lt _ (by decide))
  exact lt_of_le_of_lt (Nat.div_le_self _ _) (hfold intercepts 0 (by decide))

theorem natCast_mod_modEq (n : Nat) : ((n % word : Nat) : Int) ≡ n [ZMOD word] := by
  rw [Int.natCast_mod]
  exact Int.mod_modEq _ _

/-- The sums are right up to multiples of `2 ^ 64`, also where a time is less than the intercept. -/
theorem calibratedSlope_eq {intercept : Nat} (hintercept : intercept < word) {points : List (Nat × Nat)}
    (hsquares : squares points < word) :
    (calibratedSlope intercept points : Int) = products intercept points % word / squares points := by
  have hsums : ∀ points : List (Nat × Nat),
      let sums := points.foldr (fun p sums : Nat × Nat =>
        ((sums.1 + p.1 * p.1) % word, (sums.2 + p.1 * ((p.2 + word - intercept) % word)) % word)) (0, 0)
      sums.1 = squares points % word ∧ sums.2 < word ∧ (sums.2 : Int) ≡ products intercept points [ZMOD word] := by
    intro points
    induction points with
    | nil => exact ⟨rfl, Nat.two_pow_pos 64, Int.ModEq.refl _⟩
    | cons p points ih =>
      obtain ⟨hfirst, -, hsecond⟩ := ih
      refine ⟨?_, Nat.mod_lt _ (by decide), ?_⟩
      · simp only [List.foldr_cons, hfirst, squares, List.map_cons, List.sum_cons]
        rw [Nat.mod_add_mod, Nat.add_comm]
      · simp only [List.foldr_cons, products, List.map_cons, List.sum_cons]
        refine (natCast_mod_modEq _).trans ?_
        rw [Nat.cast_add, Nat.cast_mul, add_comm]
        refine Int.ModEq.add (Int.ModEq.mul_left _ ((natCast_mod_modEq _).trans ?_)) hsecond
        rw [Nat.cast_sub (by omega), Nat.cast_add]
        have hwrap : ((p.2 : Int) + word - intercept) - (p.2 - intercept) = word * 1 := by ring
        exact (Int.modEq_iff_dvd.mpr ⟨1, hwrap⟩).symm
  obtain ⟨hfirst, hlt, hsecond⟩ := hsums points
  rw [calibratedSlope, Int.natCast_div, hfirst, Nat.mod_eq_of_lt hsquares]
  congr 1
  have hmod := hsecond.eq
  rwa [Int.emod_eq_of_lt (Int.natCast_nonneg _) (by exact_mod_cast hlt)] at hmod

theorem emod_ediv_eq_iff {n : Int} {d m : Nat} (hd : 0 < d) (hdm : d ≤ m) : n % m / d = n / d ↔ 0 ≤ n ∧ n < m := by
  have hd' : (0 : Int) < d := by exact_mod_cast hd
  have hm' : (0 : Int) < m := by exact_mod_cast lt_of_lt_of_le hd hdm
  constructor
  · intro heq
    have hnonneg : 0 ≤ n := by
      by_contra hneg
      have hquotient : n / d < 0 := Int.ediv_neg_of_neg_of_pos (by omega) hd'
      have hmod : 0 ≤ n % m / d := Int.ediv_nonneg (Int.emod_nonneg _ hm'.ne') hd'.le
      omega
    refine ⟨hnonneg, ?_⟩
    by_contra hlarge
    have hmod : n % m ≤ n - d := by
      have hlt := Int.emod_lt_of_pos n hm'
      have hsplit := Int.emod_add_mul_ediv n m
      have hquotient : 1 ≤ n / m := Int.le_ediv_of_mul_le hm' (by omega)
      have hle : (m : Int) * 1 ≤ m * (n / m) := Int.mul_le_mul_of_nonneg_left hquotient hm'.le
      have hdm' : (d : Int) ≤ m := by exact_mod_cast hdm
      omega
    have hless : n % m / d ≤ (n - d) / d := Int.ediv_le_ediv hd' hmod
    have hone : (n - d) / d = n / d - 1 := by
      rw [Int.sub_ediv_of_dvd n (dvd_refl (d : Int)), Int.ediv_self hd'.ne']
    omega
  · rintro ⟨hnonneg, hlt⟩
    rw [Int.emod_eq_of_lt hnonneg hlt]

theorem samplePoints_fst (run : Nat → σ → Nat × σ) (xs : List Nat) (s : σ) :
    (samplePoints run xs s).1.map Prod.fst = xs := by
  induction xs generalizing s with
  | nil => rfl
  | cons x xs ih => rw [samplePoints, List.map_cons, ih]

theorem squares_calibrationRuns (Now : σ → TimePoint × σ) (s : σ) : squares (calibrationRuns Now s).1.2 = 7550 := by
  have hsquares : ∀ points : List (Nat × Nat), squares points = ((points.map Prod.fst).map fun x => x * x).sum := by
    intro points
    rw [squares, List.map_map]
    rfl
  rw [hsquares, calibrationRuns, samplePoints_fst]
  decide

/-- The slope is, rounded down, the one with the least squared error exactly if the sum of the products lies in
the range of its type. -/
theorem getCalibrationModel_slope (Now : σ → TimePoint × σ) (s : σ) :
    let intercept := (calibrationRuns Now s).1.1
    let points := (calibrationRuns Now s).1.2
    ∃ best : ℚ,
      (∀ a, a ≠ best → LeastSquares.squaredError (intercept : ℚ) best (samples points) <
        LeastSquares.squaredError (intercept : ℚ) a (samples points)) ∧
      (((GetCalibrationModel Now s).1.Slope : Int) = ⌊best⌋ ↔
        0 ≤ products intercept points ∧ products intercept points < word) := by
  intro intercept points
  have hsquares : squares points = 7550 := squares_calibrationRuns Now s
  have hpos : 0 < LeastSquares.sumSquares (samples points) := by
    rw [sumSquares_samples, hsquares]
    norm_num
  refine ⟨LeastSquares.slope intercept (samples points), fun a ha => ?_, ?_⟩
  · refine lt_of_le_of_ne (LeastSquares.squaredError_slope_le hpos _ a) fun heq => ha ?_
    refine LeastSquares.eq_slope_of_squaredError_le hpos fun a' => ?_
    exact heq.symm.le.trans (LeastSquares.squaredError_slope_le hpos _ a')
  · have hslope : ((GetCalibrationModel Now s).1.Slope : Int) = products intercept points % word / squares points :=
      calibratedSlope_eq (interceptAvg_lt _) (by rw [hsquares]; decide)
    have hfloor : ⌊LeastSquares.slope (intercept : ℚ) (samples points)⌋ = products intercept points / squares points := by
      rw [LeastSquares.slope, sumSquares_samples, sumProducts_samples]
      exact Rat.floor_intCast_div_natCast _ _
    rw [hslope, hfloor]
    exact emod_ediv_eq_iff (by rw [hsquares]; decide) (by rw [hsquares]; decide)

/-! ### What is called of the tests -/

inductive Action
  | CreateTest
  | SetUp
  | TestBody
  | TearDown
  | delete
  deriving DecidableEq

/-- Every action with the name of its test. -/
abbrev Actions : Type := List (List Char × Action)

def TestFactory.traced (name : List Char) (factory : TestFactory σ) : TestFactory (σ × Actions) where
  CreateTest s := (factory.CreateTest s.1, s.2 ++ [(name, .CreateTest)])
  SetUp s := (factory.SetUp s.1, s.2 ++ [(name, .SetUp)])
  TestBody s := (factory.TestBody s.1, s.2 ++ [(name, .TestBody)])
  TearDown s := (factory.TearDown s.1, s.2 ++ [(name, .TearDown)])
  delete s := (factory.delete s.1, s.2 ++ [(name, .delete)])

/-- The test, which also records what is called of it. -/
def TestDescriptor.traced (descriptor : TestDescriptor σ) : TestDescriptor (σ × Actions) where
  FixtureName := descriptor.FixtureName
  TestName := descriptor.TestName
  CanonicalName := descriptor.CanonicalName
  Runs := descriptor.Runs
  Iterations := descriptor.Iterations
  Factory := descriptor.Factory.traced descriptor.CanonicalName
  Parameters := descriptor.Parameters
  IsDisabled := descriptor.IsDisabled
  canonical := descriptor.canonical

def tracedClock (Now : σ → TimePoint × σ) (s : σ × Actions) : TimePoint × (σ × Actions) :=
  ((Now s.1).1, ((Now s.1).2, s.2))

/-- `f'` does what `f` does, and records `actions`. -/
def Records {α : Type} (f : σ → α × σ) (f' : σ × Actions → α × (σ × Actions)) (actions : Actions) : Prop :=
  ∀ s recorded, f' (s, recorded) = ((f s).1, ((f s).2, recorded ++ actions))

/-- What is called in one run. -/
def runActions (descriptor : TestDescriptor σ) : Actions :=
  (Action.CreateTest :: Action.SetUp :: (List.replicate descriptor.Iterations Action.TestBody ++
    [Action.TearDown, Action.delete])).map fun action => (descriptor.CanonicalName, action)

theorem iterate_traced (name : List Char) (factory : TestFactory σ) (iterations : Nat) (s : σ) (recorded : Actions) :
    (factory.traced name).TestBody^[iterations] (s, recorded) =
      (factory.TestBody^[iterations] s, recorded ++ List.replicate iterations (name, .TestBody)) := by
  induction iterations with
  | zero => simp
  | succ iterations ih =>
    rw [Function.iterate_succ_apply', ih, Function.iterate_succ_apply', List.replicate_succ', ← List.append_assoc]
    rfl

theorem run_records (Now : σ → TimePoint × σ) (name : List Char) (factory : TestFactory σ) (iterations : Nat) :
    Records (factory.Run Now iterations) ((factory.traced name).Run (tracedClock Now) iterations)
      ((name, .SetUp) :: (List.replicate iterations (name, .TestBody) ++ [(name, .TearDown)])) := by
  intro s recorded
  have hbody : (factory.traced name).TestBody^[iterations] (tracedClock Now ((factory.traced name).SetUp (s, recorded))).2 =
      (factory.TestBody^[iterations] (Now (factory.SetUp s)).2,
        (recorded ++ [(name, .SetUp)]) ++ List.replicate iterations (name, .TestBody)) :=
    iterate_traced name factory iterations _ _
  simp only [TestFactory.Run, hbody]
  simp only [TestFactory.traced, tracedClock, List.append_assoc, List.cons_append, List.nil_append]

theorem runOnce_records (Now : σ → TimePoint × σ) (overheadCalibration : Nat) (descriptor : TestDescriptor σ) :
    Records (runOnce Now overheadCalibration descriptor)
      (runOnce (tracedClock Now) overheadCalibration descriptor.traced) (runActions descriptor) := by
  intro s recorded
  have hrun := run_records Now descriptor.CanonicalName descriptor.Factory descriptor.Iterations
    (descriptor.Factory.CreateTest s) (recorded ++ [(descriptor.CanonicalName, .CreateTest)])
  have hcreate : (descriptor.Factory.traced descriptor.CanonicalName).CreateTest (s, recorded) =
      (descriptor.Factory.CreateTest s, recorded ++ [(descriptor.CanonicalName, .CreateTest)]) := rfl
  simp only [runOnce, TestDescriptor.traced, hcreate, hrun]
  simp only [TestFactory.traced, runActions, List.map_cons, List.map_append, List.map_replicate, List.map_nil,
    List.append_assoc, List.cons_append, List.nil_append]

theorem times_records {f : σ → Nat × σ} {f' : σ × Actions → Nat × (σ × Actions)} {actions : Actions}
    (h : Records f f' actions) (count : Nat) :
    Records (times f count) (times f' count) (List.replicate count actions).flatten := by
  induction count with
  | zero =>
    intro s recorded
    simp [times]
  | succ count ih =>
    intro s recorded
    simp only [times, h s recorded, ih (f s).2 (recorded ++ actions)]
    rw [List.replicate_succ, List.flatten_cons, List.append_assoc]

theorem emptyTest_records (Now : σ → TimePoint × σ) (iterations : Nat) :
    Records (emptyTest.Run Now iterations) (emptyTest.Run (tracedClock Now) iterations) [] := by
  intro s recorded
  simp [emptyTest, TestFactory.Run, tracedClock]

theorem samplePoints_records {run : Nat → σ → Nat × σ} {run' : Nat → σ × Actions → Nat × (σ × Actions)}
    (h : ∀ iterations, Records (run iterations) (run' iterations) []) (xs : List Nat) :
    Records (samplePoints run xs) (samplePoints run' xs) [] := by
  induction xs with
  | nil =>
    intro s recorded
    simp [samplePoints]
  | cons x xs ih =>
    intro s recorded
    have hfirst := h (x * HAYAI_CALIBRATION_SCALE) s recorded
    rw [List.append_nil] at hfirst
    simp only [samplePoints, hfirst, ih _ recorded]

theorem getCalibrationModel_records (Now : σ → TimePoint × σ) :
    Records (GetCalibrationModel Now) (GetCalibrationModel (tracedClock Now)) [] := by
  intro s recorded
  have hintercepts := times_records (emptyTest_records Now 0) HAYAI_CALIBRATION_INTERESECT_RUNS s recorded
  have hnothing : (List.replicate HAYAI_CALIBRATION_INTERESECT_RUNS ([] : Actions)).flatten = [] := by
    rw [List.flatten_eq_nil_iff]
    exact fun actions hactions => List.eq_of_mem_replicate hactions
  rw [hnothing, List.append_nil] at hintercepts
  have hpoints := samplePoints_records (emptyTest_records Now)
    (List.replicate HAYAI_CALIBRATION_RUNS calibrationPoints).flatten
    (times (emptyTest.Run Now 0) HAYAI_CALIBRATION_INTERESECT_RUNS s).2 recorded
  simp only [GetCalibrationModel, calibrationRuns, hintercepts, hpoints]

/-- Whether a test is run. -/
def isRun (filters : List (List Char)) (descriptor : TestDescriptor σ) : Bool :=
  isIncluded filters descriptor && !descriptor.IsDisabled

theorem runTest_records (Now : σ → TimePoint × σ) (model : CalibrationModel) (filters : List (List Char))
    (descriptor : TestDescriptor σ) (s : σ) (recorded : Actions) :
    (runTest (tracedClock Now) model filters descriptor.traced (s, recorded)).2 =
      ((runTest Now model filters descriptor s).2, recorded ++
        if isRun filters descriptor then (List.replicate descriptor.Runs (runActions descriptor)).flatten else []) := by
  have hincluded : isIncluded filters descriptor.traced = isIncluded filters descriptor := rfl
  have hdisabled : descriptor.traced.IsDisabled = descriptor.IsDisabled := rfl
  rw [runTest, runTest, hincluded, hdisabled, isRun]
  cases isIncluded filters descriptor with
  | false => simp
  | true =>
    cases descriptor.IsDisabled with
    | true => simp
    | false =>
      have hruns := times_records (runOnce_records Now (model.GetCalibration descriptor.Iterations) descriptor)
        descriptor.Runs s recorded
      have hsame : descriptor.traced.Iterations = descriptor.Iterations ∧ descriptor.traced.Runs = descriptor.Runs :=
        ⟨rfl, rfl⟩
      simp [hsame, hruns]

/-- The tests that are included and not disabled are run one after the other, each run on an instance of its own
that is set up and torn down, and nothing is called of the others. -/
theorem runAllTests_actions (Now : σ → TimePoint × σ) (filters : List (List Char)) (tests : List (TestDescriptor σ))
    (s : σ) :
    (RunAllTests (tracedClock Now) filters (tests.map TestDescriptor.traced) (s, [])).2 =
      ((RunAllTests Now filters tests s).2, (tests.filter (isRun filters)).flatMap fun descriptor =>
        (List.replicate descriptor.Runs (runActions descriptor)).flatten) := by
  have hrun : ∀ (model : CalibrationModel) (tests : List (TestDescriptor σ)) (s : σ) (recorded : Actions),
      (runTests (tracedClock Now) model filters (tests.map TestDescriptor.traced) (s, recorded)).2 =
        ((runTests Now model filters tests s).2, recorded ++ (tests.filter (isRun filters)).flatMap fun descriptor =>
          (List.replicate descriptor.Runs (runActions descriptor)).flatten) := by
    intro model tests
    induction tests with
    | nil =>
      intro s recorded
      simp [runTests]
    | cons descriptor tests ih =>
      intro s recorded
      rw [List.map_cons, runTests, runTests]
      simp only [runTest_records, ih]
      by_cases hdescriptor : isRun filters descriptor
      · simp [hdescriptor]
      · simp [hdescriptor]
  have hmodel := getCalibrationModel_records Now s []
  simp only [RunAllTests, hmodel, hrun, List.append_nil, List.nil_append]

/-! ### What is reported -/

/-- What is reported of a test: its result, unless it is disabled. -/
structure Entry (σ : Type) where
  descriptor : TestDescriptor σ
  result : Option TestResult

def Entry.calls (entry : Entry σ) : List (Call σ) :=
  match entry.result with
  | none => [.SkipDisabledTest entry.descriptor]
  | some result => [.BeginTest entry.descriptor, .EndTest entry.descriptor result]

/-- The calls of all tests, as every outputter gets them. -/
def session (enabledCount disabledCount : Nat) (entries : List (Entry σ)) : List (Call σ) :=
  .Begin enabledCount disabledCount :: (entries.flatMap Entry.calls ++ [.End enabledCount disabledCount])

/-- The result sums up the times of a number of runs. -/
structure TestResult.Summarizes (result : TestResult) (runs iterations : Nat) : Prop where
  length : result.runTimes.length = runs
  iterations : result.iterations = iterations
  total : result.timeTotal = result.runTimes.sum % word
  min_le : ∀ time ∈ result.runTimes, result.timeRunMin ≤ time
  le_max : ∀ time ∈ result.runTimes, time ≤ result.timeRunMax
  mem : result.runTimes ≠ [] → result.timeRunMin ∈ result.runTimes ∧ result.timeRunMax ∈ result.runTimes

/-- What an entry says of its test. -/
structure Entry.Reports (descriptor : TestDescriptor σ) (entry : Entry σ) : Prop where
  test : entry.descriptor = descriptor
  disabled : entry.result = none ↔ descriptor.IsDisabled = true
  result : ∀ result, entry.result = some result → result.Summarizes descriptor.Runs descriptor.Iterations

theorem summarize_foldl (runs : List Nat) (iterations : Nat) (result : TestResult) (done : List Nat)
    (htotal : result.timeTotal = done.sum % word)
    (hmin : result.timeRunMin ∈ done ∧ ∀ time ∈ done, result.timeRunMin ≤ time)
    (hmax : result.timeRunMax ∈ done ∧ ∀ time ∈ done, time ≤ result.timeRunMax)
    (htimes : result.runTimes = done ++ runs) (hiterations : result.iterations = iterations) :
    (runs.foldl (fun result run => result.summarize false run) result).Summarizes (done ++ runs).length iterations := by
  induction runs generalizing result done with
  | nil =>
    rw [List.append_nil] at htimes ⊢
    rw [List.foldl_nil]
    refine ⟨by rw [htimes], hiterations, by rw [htimes, htotal], ?_, ?_, fun _ => ?_⟩
    · rw [htimes]
      exact hmin.2
    · rw [htimes]
      exact hmax.2
    · rw [htimes]
      exact ⟨hmin.1, hmax.1⟩
  | cons run runs ih =>
    have hsplit : done ++ run :: runs = (done ++ [run]) ++ runs := by simp
    rw [List.foldl_cons, hsplit]
    refine ih _ (done ++ [run]) ?_ ?_ ?_ (by rw [← hsplit]; exact htimes) hiterations
    · simp only [TestResult.summarize, htotal, List.sum_append, List.sum_singleton, Nat.mod_add_mod]
    · simp only [TestResult.summarize, Bool.false_eq_true, false_or, List.mem_append, List.mem_singleton]
      split
      · rename_i hlt
        refine ⟨.inr rfl, ?_⟩
        rintro time (htime | rfl)
        · exact hlt.le.trans (hmin.2 time htime)
        · exact le_rfl
      · rename_i hle
        refine ⟨.inl hmin.1, ?_⟩
        rintro time (htime | rfl)
        · exact hmin.2 time htime
        · exact not_lt.mp hle
    · simp only [TestResult.summarize, Bool.false_eq_true, false_or, List.mem_append, List.mem_singleton]
      split
      · rename_i hlt
        refine ⟨.inr rfl, ?_⟩
        rintro time (htime | rfl)
        · exact (hmax.2 time htime).trans hlt.le
        · exact le_rfl
      · rename_i hle
        refine ⟨.inl hmax.1, ?_⟩
        rintro time (htime | rfl)
        · exact hmax.2 time htime
        · exact not_lt.mp hle

theorem testResult_summarizes (runTimes : List Nat) (iterations : Nat) :
    (TestResult.create runTimes iterations).Summarizes runTimes.length iterations := by
  cases runTimes with
  | nil => exact ⟨rfl, rfl, rfl, by simp [TestResult.create], by simp [TestResult.create], fun h => absurd rfl h⟩
  | cons run runs =>
    refine summarize_foldl runs iterations _ [run] ?_ ?_ ?_ rfl rfl
    · simp [TestResult.summarize]
    · simp [TestResult.summarize]
    · simp [TestResult.summarize]

theorem times_length (run : σ → Nat × σ) (count : Nat) (s : σ) : (times run count s).1.length = count := by
  induction count generalizing s with
  | zero => rfl
  | succ count ih => rw [times, List.length_cons, ih]

theorem runTest_calls (Now : σ → TimePoint × σ) (model : CalibrationModel) (filters : List (List Char))
    (descriptor : TestDescriptor σ) (s : σ) (h : isIncluded filters descriptor = true) :
    ∃ entry, Entry.Reports descriptor entry ∧ (runTest Now model filters descriptor s).1 = entry.calls := by
  rw [runTest, h]
  cases hdisabled : descriptor.IsDisabled with
  | true =>
    refine ⟨⟨descriptor, none⟩, ⟨rfl, iff_of_true rfl hdisabled, fun result hresult => by cases hresult⟩, ?_⟩
    simp [Entry.calls]
  | false =>
    let runs := times (runOnce Now (model.GetCalibration descriptor.Iterations) descriptor) descriptor.Runs s
    refine ⟨⟨descriptor, some (.create runs.1 descriptor.Iterations)⟩, ⟨rfl, ?_, fun result hresult => ?_⟩, ?_⟩
    · exact iff_of_false (by simp) (by simp [hdisabled])
    · cases hresult
      have hsummary := testResult_summarizes runs.1 descriptor.Iterations
      rwa [times_length] at hsummary
    · simp [Entry.calls, runs]

/-- The outputters are told of every included test, in order, with the counts of all tests. -/
theorem runAllTests_session (Now : σ → TimePoint × σ) (filters : List (List Char)) (tests : List (TestDescriptor σ))
    (s : σ) :
    ∃ entries, List.Forall₂ Entry.Reports (tests.filter (isIncluded filters)) entries ∧
      (RunAllTests Now filters tests s).1 =
        session (tests.countP fun descriptor => !descriptor.IsDisabled)
          (tests.countP fun descriptor => descriptor.IsDisabled) entries := by
  have hrun : ∀ (model : CalibrationModel) (tests : List (TestDescriptor σ)) (s : σ),
      ∃ entries, List.Forall₂ Entry.Reports (tests.filter (isIncluded filters)) entries ∧
        (runTests Now model filters tests s).1 = entries.flatMap Entry.calls := by
    intro model tests
    induction tests with
    | nil => exact fun s => ⟨[], .nil, rfl⟩
    | cons descriptor tests ih =>
      intro s
      obtain ⟨entries, hentries, hcalls⟩ := ih (runTest Now model filters descriptor s).2
      by_cases hincluded : isIncluded filters descriptor = true
      · obtain ⟨entry, hentry, hfirst⟩ := runTest_calls Now model filters descriptor s hincluded
        refine ⟨entry :: entries, ?_, ?_⟩
        · rw [List.filter_cons_of_pos hincluded]
          exact .cons hentry hentries
        · rw [runTests, hfirst, hcalls, List.flatMap_cons]
      · refine ⟨entries, ?_, ?_⟩
        · rwa [List.filter_cons_of_neg hincluded]
        · have hnone : (runTest Now model filters descriptor s).1 = [] := by
            rw [runTest, if_pos (by simpa using hincluded)]
          rw [runTests, hnone, hcalls, List.nil_append]
  obtain ⟨entries, hentries, hcalls⟩ := hrun (GetCalibrationModel Now s).1 tests (GetCalibrationModel Now s).2
  refine ⟨entries, hentries, ?_⟩
  have hcount := List.length_eq_countP_add_countP (l := tests) fun descriptor => descriptor.IsDisabled
  simp only [Bool.not_eq_true, Bool.decide_eq_false] at hcount
  have henabled : tests.length - tests.countP (fun descriptor => descriptor.IsDisabled) =
      tests.countP fun descriptor => !descriptor.IsDisabled := by omega
  simp only [RunAllTests, hcalls, henabled, session]

end BenchmarkLibs.Hayai

import BenchmarkLibs.Base.Conditional
import BenchmarkLibs.Celero.Executor

/-!
# What running everything amounts to

A registry that has not been run has a plan: the runs of all baselines, then those of all experiments, each
experiment once for each of its problem spaces. A baseline without samples is never complete, so it is run again
with every experiment. `RunAll` carries out exactly the plan, and each result holds what its own runs measured
(`runAll_plan`). It comes to an end exactly if every group has a baseline and every experiment stays within the
problem spaces of its baseline.
-/

namespace BenchmarkLibs.Celero

open Fallible Storage

variable {W K : Type} [Field K] [LinearOrder K]

/-! ### Plans -/

/-- The runs for one problem space: a value and a number of iterations. -/
structure Segment (W : Type) where
  factory : Factory W
  threads : Nat
  samples : Nat
  problemSpace : Int × Nat

/-- What a number of runs one after another measure, and the world after them. -/
def runTimes (f : Factory W) (threads iterations : Nat) (value : Int) : Nat → W → List Nat × W
  | 0, world => ([], world)
  | samples + 1, world =>
    let (testTime, world) := f.run threads iterations value world
    let (times, world) := runTimes f threads iterations value samples world
    (testTime :: times, world)

def Segment.measure (s : Segment W) (world : W) : List Nat × W :=
  runTimes s.factory s.threads s.problemSpace.2 s.problemSpace.1 s.samples world

def Segment.result (s : Segment W) (times : List Nat) : Result K :=
  ⟨s.problemSpace.1, s.problemSpace.2, .ofSamples times, decide (0 < s.samples)⟩

def trace : List (Segment W) → W → List (List Nat) × W
  | [], world => ([], world)
  | s :: rest, world =>
    let (times, world) := s.measure world
    let (others, world) := trace rest world
    (times :: others, world)

/-- The problem spaces the fixture asks for. -/
def Experiment.spaces (e : Experiment W K) : List (Int × Nat) :=
  e.factory.getExperimentValues.map fun i => (i.1, if i.2 ≠ 0 then i.2 else e.iterations)

/-- The problem spaces of a first run. -/
def Experiment.planned (e : Experiment W K) : List (Int × Nat) :=
  if e.spaces = [] then [(NoProblemSpaceValue, e.iterations)] else e.spaces

def Experiment.segment (e : Experiment W K) (space : Int × Nat) : Segment W :=
  ⟨e.factory, e.threads, e.samples, space⟩

def Experiment.segments (e : Experiment W K) : List (Segment W) := e.planned.map e.segment

/-- The problem spaces after a first run and `reruns` more, each of which adds those of the fixture anew. -/
def Experiment.spacesAfter (e : Experiment W K) (reruns : Nat) : List (Int × Nat) :=
  e.planned ++ (List.replicate reruns e.spaces).flatten

/-- What of a baseline is run again with the experiment number `i`: where it has no samples, all that it has. -/
def Experiment.rerunSegments (b : Experiment W K) (i : Nat) : List (Segment W) :=
  if b.samples = 0 then (b.spacesAfter (i + 1)).map b.segment else []

def Benchmark.baselineSegments (bm : Benchmark W K) : List (Segment W) :=
  bm.baseline.toList.flatMap Experiment.segments

def Benchmark.rerunSegments (bm : Benchmark W K) (i : Nat) : List (Segment W) :=
  bm.baseline.toList.flatMap fun b => b.rerunSegments i

def Benchmark.experimentSegments (bm : Benchmark W K) : List (Segment W) :=
  bm.experiments.zipIdx.flatMap fun e => bm.rerunSegments e.2 ++ e.1.segments

def plan (tests : List (Benchmark W K)) : List (Segment W) :=
  tests.flatMap Benchmark.baselineSegments ++ tests.flatMap Benchmark.experimentSegments

/-- A result as it is added; a run without samples leaves it so. -/
def Result.fresh (space : Int × Nat) : Result K := ⟨space.1, space.2, .empty, false⟩

/-- A baseline that has been run, after `reruns` more runs with experiments. -/
def Experiment.rerun (b : Experiment W K) (reruns : Nat) : Experiment W K :=
  if b.samples = 0 then { b with results := (b.spacesAfter reruns).map .fresh } else b

/-- The results of the first run of a baseline. -/
def Experiment.firstResults (b : Experiment W K) : List (Result K) :=
  if b.samples = 0 then b.planned.map .fresh else b.results

def Benchmark.baselineResults (bm : Benchmark W K) : List (Result K) :=
  bm.baseline.toList.flatMap Experiment.firstResults

def Benchmark.experimentResults (bm : Benchmark W K) : List (Result K) :=
  bm.experiments.zipIdx.flatMap fun e =>
    ((bm.rerunSegments e.2).map fun s => .fresh s.problemSpace) ++ e.1.results

/-- What each segment of the plan leaves in its result. -/
def allResults (tests : List (Benchmark W K)) : List (Result K) :=
  tests.flatMap Benchmark.baselineResults ++ tests.flatMap Benchmark.experimentResults

def Line.completed : Line K → Option (Result K)
  | .resultComplete _ _ r => some r
  | _ => none

/-- The results that were passed to the callbacks. -/
def Env.completed (env : Env W K) : List (Result K) := env.lines.filterMap Line.completed

/-- From `env` to `env'` the segments have been carried out, with these results. -/
structure Executed (segments : List (Segment W)) (env env' : Env W K) (results : List (Result K)) : Prop where
  world : env'.world = (trace segments env.world).2
  measured : results = List.zipWith Segment.result segments (trace segments env.world).1
  completed : env'.completed = env.completed ++ results

theorem length_trace (segments : List (Segment W)) (world : W) :
    (trace segments world).1.length = segments.length := by
  induction segments generalizing world with
  | nil => rfl
  | cons s rest ih => simp only [trace, List.length_cons, ih]

theorem trace_append (first second : List (Segment W)) (world : W) :
    trace (first ++ second) world =
      ((trace first world).1 ++ (trace second (trace first world).2).1,
        (trace second (trace first world).2).2) := by
  induction first generalizing world with
  | nil => rfl
  | cons s rest ih => simp only [List.cons_append, trace, ih]

omit [LinearOrder K] in
theorem Executed.nil (env : Env W K) : Executed [] env env [] where
  world := rfl
  measured := rfl
  completed := (List.append_nil _).symm

omit [LinearOrder K] in
theorem Executed.append {first second : List (Segment W)} {env env' env'' : Env W K}
    {results results' : List (Result K)} (h : Executed first env env' results)
    (h' : Executed second env' env'' results') : Executed (first ++ second) env env'' (results ++ results') where
  world := by rw [trace_append, h'.world, h.world]
  measured := by
    rw [trace_append, List.zipWith_append (length_trace first env.world).symm, ← h.measured, ← h.world,
      ← h'.measured]
  completed := by rw [h'.completed, h.completed, List.append_assoc]

/-! ### One experiment -/

omit [LinearOrder K] in
theorem runSamples_eq (f : Factory W) (threads iterations : Nat) (value : Int) (samples : Nat)
    (stats : Statistics K) (world : W) :
    runSamples f threads iterations value samples stats world =
      ((runTimes f threads iterations value samples world).1.foldl Statistics.addSample stats,
        (runTimes f threads iterations value samples world).2) := by
  induction samples generalizing stats world with
  | zero => rfl
  | succ samples ih => simp only [runSamples, runTimes, List.foldl_cons, ih]

def Result.problemSpace (r : Result K) : Int × Nat := (r.problemSpaceValue, r.problemSpaceIterations)

omit [LinearOrder K] in
theorem populate_eq (e : Experiment W K) (fallback : Int) :
    e.populate fallback =
      { e with results := e.results ++ (if e.results = [] then e.planned else e.spaces).map Result.fresh } := by
  have hfold : ∀ (values : List (Int × Nat)) (e : Experiment W K),
      values.foldl (fun e i => e.addProblemSpace i.1 (if i.2 ≠ 0 then i.2 else e.iterations)) e =
        { e with
          results := e.results ++
            (values.map fun i => (i.1, if i.2 ≠ 0 then i.2 else e.iterations)).map Result.fresh } := by
    intro values
    induction values with
    | nil => intro e; simp
    | cons i values ih =>
      intro e
      rw [List.foldl_cons, ih]
      simp [Experiment.addProblemSpace, Result.fresh]
  have hspaces : (e.factory.getExperimentValues.map fun i => (i.1, if i.2 ≠ 0 then i.2 else e.iterations))
      = e.spaces := rfl
  simp only [Experiment.populate, hfold, hspaces, Experiment.planned]
  by_cases hresults : e.results = []
  · by_cases hempty : e.spaces = []
    · -- the result that `getResultSize` adds
      simp [Experiment.getResultSize, Experiment.addProblemSpace, hresults, hempty, Result.fresh]
    · simp [Experiment.getResultSize, hresults, hempty]
  · simp [Experiment.getResultSize, hresults]

/-- Where `TableResult` finds a baseline measurement. -/
def Comparable (bm : Benchmark W K) (e : Experiment W K) (value : Int) : Prop :=
  e.isBaselineCase ∨ ∀ b, bm.baseline = some b → ∃ r ∈ b.results, r.problemSpaceValue = value

theorem getBaselineMeasurement_spec (bm : Benchmark W K) (e : Experiment W K) (r : Result K) :
    SucceedsIff (e.getBaselineMeasurement bm r) (Comparable bm e r.problemSpaceValue) fun _ => True := by
  unfold Experiment.getBaselineMeasurement
  split
  · rename_i hbaseline
    exact (SucceedsIff.ok trivial).congr (iff_of_true trivial (Or.inl hbaseline))
  · rename_i hbaseline
    cases hbm : bm.baseline with
    | none => exact (SucceedsIff.ok trivial).congr (iff_of_true trivial (Or.inr (by simp [hbm])))
    | some b =>
      cases hfound : b.getResultByValue r.problemSpaceValue with
      | none =>
        simp only [hfound]
        refine SucceedsIff.error _ fun hcomparable => ?_
        rcases hcomparable with hcase | hall
        · exact hbaseline hcase
        · obtain ⟨found, hmem, hvalue⟩ := hall b hbm
          have hnone := List.find?_eq_none.mp hfound found hmem
          exact hnone (by simpa using hvalue)
      | some found =>
        simp only [hfound]
        refine (SucceedsIff.ok trivial).congr (iff_of_true trivial (Or.inr fun b' hb' => ?_))
        cases hbm.symm.trans hb'
        exact ⟨found, List.mem_of_find?_eq_some hfound, by simpa using List.find?_some hfound⟩

omit [Field K] [LinearOrder K] in
theorem completed_print (env : Env W K) (line : Line K) :
    (env.print line).completed = env.completed ++ line.completed.toList := by
  cases line <;> simp [Env.print, Env.completed, Line.completed]

omit [LinearOrder K] in
theorem executeProblemSpace_fresh (bm : Benchmark W K) (e : Experiment W K) (space : Int × Nat)
    (env : Env W K) :
    (ExecuteProblemSpace bm e (.fresh space) env).1 =
        (e.segment space).result ((e.segment space).measure env.world).1 ∧
      (ExecuteProblemSpace bm e (.fresh space) env).2.world = ((e.segment space).measure env.world).2 ∧
      (ExecuteProblemSpace bm e (.fresh space) env).2.completed = env.completed := by
  unfold ExecuteProblemSpace
  split
  · rename_i hsamples
    simp only [runSamples_eq]
    refine ⟨?_, rfl, rfl⟩
    simp only [Segment.result, Experiment.segment, hsamples, decide_true]
    rfl
  · rename_i hsamples
    have hzero : e.samples = 0 := by omega
    refine ⟨?_, ?_, ?_⟩
    · simp only [Segment.result, Segment.measure, Experiment.segment, hzero, runTimes]
      rfl
    · simp only [Segment.measure, Experiment.segment, hzero, runTimes]
      rfl
    · rw [completed_print]
      exact List.append_nil _

theorem tableResult_spec (bm : Benchmark W K) (e : Experiment W K) (r : Result K) (env : Env W K) :
    SucceedsIff (TableResult bm e r env) (Comparable bm e r.problemSpaceValue) fun env' =>
      env'.world = env.world ∧ env'.completed = env.completed := by
  refine ((getBaselineMeasurement_spec bm e r).bind fun measurement _ => SucceedsIff.ok ⟨rfl, ?_⟩).congr
    (and_iff_left trivial)
  rw [completed_print]
  exact List.append_nil _

omit [LinearOrder K] in
theorem Executed.print {segments : List (Segment W)} {env env' : Env W K} {results : List (Result K)}
    {line : Line K} (h : Executed segments env env' results) (hline : line.completed = none) :
    Executed segments env (env'.print line) results where
  world := h.world
  measured := h.measured
  completed := by rw [completed_print, hline, h.completed, Option.toList_none, List.append_nil]

theorem runResult_spec (bm : Benchmark W K) (e : Experiment W K) (space : Int × Nat) (env : Env W K) :
    SucceedsIff (runResult bm e (.fresh space) env) (Comparable bm e space.1) fun a =>
      Executed [e.segment space] env a.2 [a.1] ∧ a.1.problemSpace = space := by
  obtain ⟨hresult, hworld, hcompleted⟩ := executeProblemSpace_fresh bm e space
    (env.print (.rowHeader bm.name e.name space.1 e.samples space.2))
  obtain ⟨a, ha⟩ : ∃ a, a = ExecuteProblemSpace bm e (.fresh space)
    (env.print (.rowHeader bm.name e.name space.1 e.samples space.2)) := ⟨_, rfl⟩
  rw [← ha] at hresult hworld hcompleted
  have hrun : runResult bm e (.fresh space) env = (TableResult bm e a.1 a.2 >>= fun env' =>
      .ok (a.1, env'.print (.resultComplete bm.name e.name a.1))) := by
    rw [ha]
    rfl
  rw [hrun]
  refine ((tableResult_spec bm e a.1 a.2).bind fun env' henv' => SucceedsIff.ok ⟨⟨?_, ?_, ?_⟩, ?_⟩).congr ?_
  · rw [and_iff_left trivial, hresult]
    rfl
  · exact henv'.1.trans hworld
  · rw [hresult]
    rfl
  · rw [completed_print, henv'.2, hcompleted, completed_print]
    simp only [Line.completed, Option.toList, List.append_nil]
  · rw [hresult]
    rfl

omit [LinearOrder K] in
/-- Segments without samples leave their results fresh. -/
theorem Executed.unmeasured {segments : List (Segment W)} {env env' : Env W K} {results : List (Result K)}
    (h : Executed segments env env' results) (hsamples : ∀ s ∈ segments, s.samples = 0) :
    results = segments.map fun s => .fresh s.problemSpace := by
  have htrace : ∀ (segments : List (Segment W)) (world : W), (∀ s ∈ segments, s.samples = 0) →
      List.zipWith Segment.result segments (trace segments world).1 =
        (segments.map fun s => .fresh s.problemSpace : List (Result K)) := by
    intro segments
    induction segments with
    | nil => exact fun _ _ => rfl
    | cons s segments ih =>
      intro world hsamples
      obtain ⟨hs, hrest⟩ := List.forall_mem_cons.mp hsamples
      rw [List.map_cons, ← ih (s.measure world).2 hrest]
      simp only [trace, List.zipWith_cons_cons, Segment.measure, Segment.result, hs, runTimes]
      rfl
  rw [h.measured, htrace segments env.world hsamples]

omit [LinearOrder K] in
theorem Executed.complete {segments : List (Segment W)} {env env' : Env W K} {results : List (Result K)}
    {samples : Nat} (h : Executed segments env env' results) (hsamples : ∀ s ∈ segments, s.samples = samples) :
    ∀ r ∈ results, r.complete = decide (0 < samples) := by
  intro r hr
  rw [h.measured, ← List.map_uncurry_zip_eq_zipWith] at hr
  obtain ⟨s, hmem, rfl⟩ := List.mem_map.mp hr
  rw [← hsamples s.1 (List.of_mem_zip hmem).1]
  rfl

/-- The problem spaces of a run of an experiment that has these already. -/
def Experiment.next (e : Experiment W K) (spaces : List (Int × Nat)) : List (Int × Nat) :=
  spaces ++ if spaces = [] then e.planned else e.spaces

theorem execute_spec (bm : Benchmark W K) {e : Experiment W K} (spaces : List (Int × Nat))
    (hresults : e.results = spaces.map Result.fresh) (fallback : Int) (env : Env W K) :
    SucceedsIff (e.execute bm fallback env) (∀ space ∈ e.next spaces, Comparable bm e space.1) fun a =>
      a.1 = { e with results := a.1.results } ∧ a.1.results.map Result.problemSpace = e.next spaces ∧
        Executed ((e.next spaces).map e.segment) env a.2 a.1.results := by
  have hpopulate : e.populate fallback = { e with results := (e.next spaces).map Result.fresh } := by
    rw [populate_eq, hresults, Experiment.next, List.map_append]
    simp only [List.map_eq_nil_iff]
  have hrun : e.execute bm fallback env =
      (forEach (runResult bm (e.populate fallback)) ((e.next spaces).map .fresh) env >>= fun a =>
        .ok ({ e with results := a.1 }, a.2.print (.experimentComplete bm.name e.name))) := by
    rw [Experiment.execute, hpopulate]
  have hloop : SucceedsIff (forEach (runResult bm (e.populate fallback)) ((e.next spaces).map .fresh) env)
      (∀ r ∈ ((e.next spaces).map Result.fresh : List (Result K)), Comparable bm e r.problemSpaceValue) fun a =>
        Executed (((e.next spaces).map Result.fresh : List (Result K)).map fun r => e.segment r.problemSpace)
          env a.2 a.1 ∧
          a.1.map Result.problemSpace =
            ((e.next spaces).map Result.fresh : List (Result K)).map Result.problemSpace := by
    refine SucceedsIff.forEach
      (I := fun done done' s => Executed (done.map fun r => e.segment r.problemSpace) env s done' ∧
        done'.map Result.problemSpace = done.map Result.problemSpace)
      ⟨.nil env, rfl⟩ fun done done' r s hI hr => ?_
    obtain ⟨space, -, rfl⟩ := List.mem_map.mp hr
    rw [hpopulate]
    refine (runResult_spec bm { e with results := (e.next spaces).map Result.fresh } space s).imp fun a _ ha => ?_
    rw [List.map_append, List.map_append, List.map_append]
    exact ⟨hI.1.append ha.1, by rw [hI.2]; exact congrArg (fun s => _ ++ [s]) ha.2⟩
  have hsegments : (((e.next spaces).map Result.fresh : List (Result K)).map fun r => e.segment r.problemSpace)
      = (e.next spaces).map e.segment := List.map_map
  have hspaces : ((e.next spaces).map Result.fresh : List (Result K)).map Result.problemSpace = e.next spaces := by
    rw [List.map_map]
    exact List.map_id _
  rw [hsegments, hspaces] at hloop
  rw [hrun]
  refine (hloop.bind fun a ha => SucceedsIff.ok ⟨rfl, ha.2, ha.1.print rfl⟩).congr ?_
  rw [and_iff_left trivial]
  exact List.forall_mem_map

omit [Field K] [LinearOrder K] in
theorem samples_segment {e : Experiment W K} {spaces : List (Int × Nat)} :
    ∀ s ∈ spaces.map e.segment, s.samples = e.samples := by
  intro s hs
  obtain ⟨space, -, rfl⟩ := List.mem_map.mp hs
  rfl

/-- A run of an experiment that had no results: it has one for each planned problem space. -/
structure Experiment.Ran (e e' : Experiment W K) : Prop where
  same : e' = { e with results := e'.results }
  problemSpaces : e'.results.map Result.problemSpace = e.planned
  complete : ∀ r ∈ e'.results, r.complete = decide (0 < e.samples)
  unmeasured : e.samples = 0 → e'.results = e.planned.map .fresh

omit [Field K] [LinearOrder K] in
theorem planned_ne_nil (e : Experiment W K) : e.planned ≠ [] := by
  unfold Experiment.planned
  split
  · simp
  · assumption

omit [Field K] [LinearOrder K] in
theorem spacesAfter_ne_nil (e : Experiment W K) (reruns : Nat) : e.spacesAfter reruns ≠ [] :=
  List.append_ne_nil_of_left_ne_nil (planned_ne_nil e) _

omit [Field K] [LinearOrder K] in
theorem mem_spacesAfter {e : Experiment W K} {reruns : Nat} {space : Int × Nat} :
    space ∈ e.spacesAfter reruns ↔ space ∈ e.planned := by
  rw [Experiment.spacesAfter, List.mem_append, or_iff_left_of_imp]
  intro hmem
  obtain ⟨spaces, hspaces, hmem⟩ := List.mem_flatten.mp hmem
  obtain rfl := List.eq_of_mem_replicate hspaces
  rw [Experiment.planned, if_neg (List.ne_nil_of_mem hmem)]
  exact hmem

omit [Field K] [LinearOrder K] in
theorem next_spacesAfter (e : Experiment W K) (reruns : Nat) :
    e.next (e.spacesAfter reruns) = e.spacesAfter (reruns + 1) := by
  rw [Experiment.next, if_neg (spacesAfter_ne_nil e reruns), Experiment.spacesAfter, Experiment.spacesAfter,
    List.replicate_succ', List.flatten_append, List.flatten_singleton, List.append_assoc]

omit [LinearOrder K] in
theorem rerunSegments_rerun (e : Experiment W K) (reruns i : Nat) :
    (e.rerun reruns).rerunSegments i = e.rerunSegments i := by
  unfold Experiment.rerun
  split
  · rfl
  · rfl

section Ran

omit [LinearOrder K]

variable {e e' : Experiment W K} (h : e.Ran e')

include h

theorem Experiment.Ran.results_ne_nil : e'.results ≠ [] := by
  intro hnil
  have hplanned := h.problemSpaces
  rw [hnil] at hplanned
  exact planned_ne_nil e hplanned.symm

theorem Experiment.Ran.firstResults_rerun (reruns : Nat) : (e'.rerun reruns).firstResults = e'.results := by
  have hsame : e'.samples = e.samples ∧ e'.planned = e.planned := by
    rw [h.same]
    exact ⟨rfl, rfl⟩
  by_cases hsamples : e'.samples = 0
  · rw [Experiment.rerun, if_pos hsamples, h.unmeasured (hsame.1 ▸ hsamples), ← hsame.2]
    exact if_pos hsamples
  · rw [Experiment.rerun, if_neg hsamples]
    exact if_neg hsamples

theorem Experiment.Ran.rerun_zero : e'.rerun 0 = e' := by
  have hsame : e'.samples = e.samples ∧ e'.planned = e.planned := by
    rw [h.same]
    exact ⟨rfl, rfl⟩
  by_cases hsamples : e'.samples = 0
  · have hzero : e'.spacesAfter 0 = e'.planned := List.append_nil _
    rw [Experiment.rerun, if_pos hsamples, hzero, hsame.2, ← h.unmeasured (hsame.1 ▸ hsamples)]
  · exact if_neg hsamples

theorem Experiment.Ran.firstResults : e'.firstResults = e'.results := by
  have hrerun := h.firstResults_rerun 0
  rwa [h.rerun_zero] at hrerun

end Ran

theorem execute_first (bm : Benchmark W K) {e : Experiment W K} (hfresh : e.results = []) (fallback : Int)
    (env : Env W K) :
    SucceedsIff (e.execute bm fallback env) (∀ space ∈ e.planned, Comparable bm e space.1) fun a =>
      e.Ran a.1 ∧ Executed e.segments env a.2 a.1.results := by
  refine (execute_spec bm [] hfresh fallback env).imp fun a _ ha => ?_
  obtain ⟨hsame, hspaces, hexecuted⟩ := ha
  refine ⟨⟨hsame, hspaces, hexecuted.complete samples_segment, fun hsamples => ?_⟩, hexecuted⟩
  rw [hexecuted.unmeasured fun s hs => (samples_segment s hs).trans hsamples, List.map_map]
  rfl

/-! ### One group -/

/-- As registered. -/
structure Benchmark.Fresh (bm : Benchmark W K) : Prop where
  baseline : ∀ b, bm.baseline = some b → b.isBaselineCase = true ∧ b.results = []
  experiments : ∀ e ∈ bm.experiments, e.isBaselineCase = false ∧ e.results = []

/-- The experiments stay within the problem spaces of the baseline. -/
def Benchmark.Within (bm : Benchmark W K) : Prop :=
  ∀ b, bm.baseline = some b → ∀ e ∈ bm.experiments, ∀ space ∈ e.planned, space.1 ∈ b.planned.map Prod.fst

structure Benchmark.BaselineRan (bm bm' : Benchmark W K) : Prop where
  same : bm' = { bm with baseline := bm'.baseline }
  ran : ∃ b b', bm.baseline = some b ∧ bm'.baseline = some b' ∧ b.Ran b'

theorem runBaseline_spec {bm : Benchmark W K} (hfresh : bm.Fresh) (env : Env W K) :
    SucceedsIff (RunBaseline bm env) (bm.baseline.isSome = true) fun a =>
      bm.BaselineRan a.1 ∧ Executed bm.baselineSegments env a.2 a.1.baselineResults := by
  unfold RunBaseline
  cases hbm : bm.baseline with
  | none => exact SucceedsIff.error _ (by simp)
  | some b =>
    obtain ⟨hcase, hresults⟩ := hfresh.baseline b hbm
    refine ((execute_first bm hresults NoProblemSpaceValue env).bind fun a ha =>
      SucceedsIff.ok ⟨⟨rfl, b, a.1, hbm, rfl, ha.1⟩, ?_⟩).congr ?_
    · rw [and_iff_left trivial]
      exact iff_of_true (fun _ _ => Or.inl hcase) rfl
    · simp only [Benchmark.baselineSegments, Benchmark.baselineResults, hbm, Option.toList_some,
        List.flatMap_singleton, ha.1.firstResults]
      exact ha.2

theorem ensureBaseline_complete {bm : Benchmark W K} {b : Experiment W K} (hb : bm.baseline = some b)
    (hne : b.results ≠ []) (hcomplete : ∀ r ∈ b.results, r.complete = true) (env : Env W K) :
    ensureBaseline bm env = .ok (bm, env) := by
  obtain ⟨r, rest, hresults⟩ := List.exists_cons_of_ne_nil hne
  have hsize : b.getResultSize = (b.results.length, b) := by
    simp [Experiment.getResultSize, hresults]
  have hhead : ¬(b.results.length = 0 ∨ (b.results.head?.map Result.complete) = some false) := by
    simp [hresults, hcomplete r (by simp [hresults])]
  simp only [ensureBaseline, hb, hsize, if_neg hhead]
  rw [← hb]

theorem ensureBaseline_incomplete {bm : Benchmark W K} {b : Experiment W K} (hb : bm.baseline = some b)
    (hne : b.results ≠ []) (hincomplete : ∀ r ∈ b.results, r.complete = false) (env : Env W K) :
    ensureBaseline bm env = RunBaseline bm env := by
  obtain ⟨r, rest, hresults⟩ := List.exists_cons_of_ne_nil hne
  have hsize : b.getResultSize = (b.results.length, b) := by
    simp [Experiment.getResultSize, hresults]
  have hhead : b.results.length = 0 ∨ (b.results.head?.map Result.complete) = some false := by
    simp [hresults, hincomplete r (by simp [hresults])]
  simp only [ensureBaseline, hb, hsize, if_pos hhead]
  rw [← hb]

section Experiments

variable {bm : Benchmark W K} {b b' : Experiment W K} (hcase : b.isBaselineCase = true) (hran : b.Ran b')

include hran

omit [LinearOrder K] in
theorem rerun_values (reruns : Nat) (value : Int) :
    (∃ r ∈ (b'.rerun reruns).results, r.problemSpaceValue = value) ↔ value ∈ b.planned.map Prod.fst := by
  have hplanned : b'.planned = b.planned := by rw [hran.same]; rfl
  unfold Experiment.rerun
  split
  · simp only [List.mem_map]
    constructor
    · rintro ⟨_, ⟨space, hspace, rfl⟩, rfl⟩
      exact ⟨space, hplanned ▸ mem_spacesAfter.mp hspace, rfl⟩
    · rintro ⟨space, hspace, rfl⟩
      exact ⟨_, ⟨space, mem_spacesAfter.mpr (hplanned.symm ▸ hspace), rfl⟩, rfl⟩
  · rw [← hran.problemSpaces, List.map_map, List.mem_map]
    rfl

include hcase

theorem ensureBaseline_spec {i : Nat} (hb : bm.baseline = some (b'.rerun i)) (env : Env W K) :
    SucceedsIff (ensureBaseline bm env) True fun a =>
      a.1 = { bm with baseline := some (b'.rerun (i + 1)) } ∧
        Executed (b'.rerunSegments i) env a.2 ((b'.rerunSegments i).map fun s => .fresh s.problemSpace) := by
  have hsame : b'.samples = b.samples := by rw [hran.same]
  have hcase' : b'.isBaselineCase = true := by rw [hran.same]; exact hcase
  by_cases hsamples : b'.samples = 0
  · have hrerun : ∀ reruns, b'.rerun reruns = { b' with results := (b'.spacesAfter reruns).map .fresh } :=
      fun reruns => if_pos hsamples
    have hne : (b'.rerun i).results ≠ [] := by
      rw [hrerun]
      exact fun hnil => spacesAfter_ne_nil b' i (List.map_eq_nil_iff.mp hnil)
    have hincomplete : ∀ r ∈ (b'.rerun i).results, r.complete = false := by
      rw [hrerun]
      intro r hr
      obtain ⟨space, -, rfl⟩ := List.mem_map.mp hr
      rfl
    rw [ensureBaseline_incomplete hb hne hincomplete, RunBaseline, hb]
    refine ((execute_spec bm (b'.spacesAfter i) (by rw [hrerun]) NoProblemSpaceValue env).bind fun a ha =>
      SucceedsIff.ok ?_).congr ?_
    · obtain ⟨hsame, -, hexecuted⟩ := ha
      have hnext : (b'.rerun i).next (b'.spacesAfter i) = b'.spacesAfter (i + 1) := by
        rw [hrerun]
        exact next_spacesAfter b' i
      have hsegments : (b'.spacesAfter (i + 1)).map (b'.rerun i).segment = b'.rerunSegments i := by
        rw [hrerun, Experiment.rerunSegments, if_pos hsamples]
        rfl
      rw [hnext, hsegments] at hexecuted
      have hresults := hexecuted.unmeasured (by
        rw [Experiment.rerunSegments, if_pos hsamples]
        exact fun s hs => (samples_segment s hs).trans hsamples)
      refine ⟨?_, hresults ▸ hexecuted⟩
      rw [hsame, hresults, hrerun, hrerun, Experiment.rerunSegments, if_pos hsamples, List.map_map]
      rfl
    · rw [and_iff_left trivial]
      refine iff_of_true (fun _ _ => Or.inl ?_) trivial
      rw [hrerun]
      exact hcase'
  · have hrerun : ∀ reruns, b'.rerun reruns = b' := fun reruns => if_neg hsamples
    have hcomplete : ∀ r ∈ b'.results, r.complete = true := by
      intro r hr
      rw [hran.complete r hr, ← hsame]
      exact decide_eq_true (Nat.pos_of_ne_zero hsamples)
    rw [hrerun] at hb
    rw [ensureBaseline_complete hb hran.results_ne_nil hcomplete, hrerun, Experiment.rerunSegments, if_neg hsamples]
    exact SucceedsIff.ok ⟨by rw [← hb], .nil env⟩

theorem runExperiment_spec {e : Experiment W K} {i : Nat} (hb : bm.baseline = some (b'.rerun i))
    (he : bm.experiments[i]? = some e) (hexperiment : e.isBaselineCase = false) (hresults : e.results = [])
    (env : Env W K) :
    SucceedsIff (RunExperiment i bm env) (∀ space ∈ e.planned, space.1 ∈ b.planned.map Prod.fst) fun a =>
      ∃ e', e.Ran e' ∧
        a.1 = { bm with baseline := some (b'.rerun (i + 1)), experiments := bm.experiments.set i e' } ∧
        Executed (b'.rerunSegments i ++ e.segments) env a.2
          (((b'.rerunSegments i).map fun s => .fresh s.problemSpace) ++ e'.results) := by
  refine ((ensureBaseline_spec hcase hran hb env).bind fun first hfirst => ?_).congr (and_iff_right trivial)
  obtain ⟨bm', env'⟩ := first
  obtain ⟨rfl, hexecuted⟩ := hfirst
  simp only [he]
  refine ((execute_first _ hresults 0 env').bind fun a ha =>
    SucceedsIff.ok ⟨a.1, ha.1, rfl, hexecuted.append ha.2⟩).congr ?_
  simp only [Comparable, hexperiment, Bool.false_eq_true, false_or, Option.some.injEq, forall_eq', rerun_values hran,
    and_true]

/-- What holds before the turn `i` of `RunExperiments`: the first `i` experiments have been run, the others are as
they were. -/
def RanUpTo (bm : Benchmark W K) (b' : Experiment W K) (env : Env W K) (i : Nat) (s : Benchmark W K × Env W K) : Prop :=
  ∃ done, s.1 = { bm with baseline := some (b'.rerun i), experiments := done ++ bm.experiments.drop i } ∧
    List.Forall₂ Experiment.Ran (bm.experiments.take i) done ∧
    Executed ((bm.experiments.take i).zipIdx.flatMap fun e => b'.rerunSegments e.2 ++ e.1.segments) env s.2
      (done.zipIdx.flatMap fun e => ((b'.rerunSegments e.2).map fun s => .fresh s.problemSpace) ++ e.1.results)

theorem RanUpTo.turn (hfresh : ∀ e ∈ bm.experiments, e.isBaselineCase = false ∧ e.results = []) {env : Env W K} {i : Nat}
    {e : Experiment W K} (he : bm.experiments[i]? = some e) {s : Benchmark W K × Env W K} (hs : RanUpTo bm b' env i s) :
    SucceedsIff (RunExperiment i s.1 s.2) (∀ space ∈ e.planned, space.1 ∈ b.planned.map Prod.fst)
      (RanUpTo bm b' env (i + 1)) := by
  obtain ⟨done, hs, hall, hexecuted⟩ := hs
  obtain ⟨hi, heq⟩ := List.getElem?_eq_some_iff.mp he
  have htaken : (bm.experiments.take i).length = i := by rw [List.length_take, min_eq_left hi.le]
  have hlength : done.length = i := hall.length_eq.symm.trans htaken
  have hdrop : bm.experiments.drop i = e :: bm.experiments.drop (i + 1) := by rw [List.drop_eq_getElem_cons hi, heq]
  have htake : bm.experiments.take (i + 1) = bm.experiments.take i ++ [e] := by
    rw [List.take_add_one, he, Option.toList_some]
  have hat : s.1.experiments[i]? = some e := by
    rw [hs, hdrop]
    simp only
    rw [List.getElem?_append_right (le_of_eq hlength), hlength, Nat.sub_self, List.getElem?_cons_zero]
  obtain ⟨hexperiment, hresults⟩ := hfresh e (List.mem_of_getElem? he)
  refine (runExperiment_spec hcase hran (by rw [hs]) hat hexperiment hresults s.2).imp fun a _ ha => ?_
  obtain ⟨e', hran', ha, hexecuted'⟩ := ha
  refine ⟨done ++ [e'], ?_, ?_, ?_⟩
  · rw [ha, hs]
    simp only
    rw [hdrop, List.set_append_right _ _ (le_of_eq hlength), hlength, Nat.sub_self, List.set_cons_zero,
      List.append_assoc, List.singleton_append]
  · rw [htake]
    exact List.rel_append hall (.cons hran' .nil)
  · rw [htake, List.zipIdx_append, List.zipIdx_append, List.flatMap_append, List.flatMap_append, htaken, hlength]
    simp only [List.zipIdx_cons, List.zipIdx_nil, List.flatMap_singleton, Nat.zero_add]
    exact hexecuted.append hexecuted'

theorem runExperiments_spec (hb : bm.baseline = some b')
    (hfresh : ∀ e ∈ bm.experiments, e.isBaselineCase = false ∧ e.results = []) (env : Env W K) :
    SucceedsIff (RunExperiments bm env)
      (∀ e ∈ bm.experiments, ∀ space ∈ e.planned, space.1 ∈ b.planned.map Prod.fst) fun a =>
        a.1 = { bm with baseline := some (b'.rerun bm.experiments.length), experiments := a.1.experiments } ∧
          List.Forall₂ Experiment.Ran bm.experiments a.1.experiments ∧
          Executed bm.experimentSegments env a.2 a.1.experimentResults := by
  have hstart : RanUpTo bm b' env 0 (bm, env) := ⟨[], by rw [hran.rerun_zero, ← hb]; rfl, .nil, .nil env⟩
  have hloop : SucceedsIff (RunExperiments bm env)
      (∀ i < bm.experiments.length, ∀ e, bm.experiments[i]? = some e → ∀ space ∈ e.planned,
        space.1 ∈ b.planned.map Prod.fst) (RanUpTo bm b' env bm.experiments.length) := by
    refine SucceedsIff.foldlM_range hstart fun i s hi hs => ?_
    have he := List.getElem?_eq_getElem hi
    refine (RanUpTo.turn hcase hran hfresh he hs).congr ?_
    simp only [he, Option.some.injEq, forall_eq']
  refine (hloop.imp fun a _ ha => ?_).congr ?_
  · obtain ⟨done, ha, hall, hexecuted⟩ := ha
    rw [List.drop_length, List.append_nil] at ha
    rw [List.take_length] at hall hexecuted
    rw [ha]
    refine ⟨rfl, hall, ?_⟩
    simp only [Benchmark.experimentSegments, Benchmark.experimentResults, Benchmark.rerunSegments, hb,
      Option.toList_some, List.flatMap_singleton, rerunSegments_rerun]
    exact hexecuted
  · constructor
    · intro h e he
      obtain ⟨i, hi, heq⟩ := List.mem_iff_getElem.mp he
      exact h i hi e (heq ▸ List.getElem?_eq_getElem hi)
    · intro h i _ e he
      exact h e (List.mem_of_getElem? he)

end Experiments

/-! ### The registry -/

omit [Field K] [LinearOrder K] in
theorem updateGroup_forall {P : Benchmark W K → Prop} {f : Benchmark W K → Benchmark W K} (groupName : String)
    (hnew : P ⟨groupName, none, []⟩) (hf : ∀ bm, P bm → P (f bm)) {tests : List (Benchmark W K)}
    (h : ∀ bm ∈ tests, P bm) : ∀ bm ∈ updateGroup groupName f tests, P bm := by
  induction tests with
  | nil =>
    rw [updateGroup]
    exact List.forall_mem_singleton.mpr (hf _ hnew)
  | cons bm tests ih =>
    obtain ⟨hbm, htests⟩ := List.forall_mem_cons.mp h
    rw [updateGroup]
    split
    · exact List.forall_mem_cons.mpr ⟨hf bm hbm, htests⟩
    · exact List.forall_mem_cons.mpr ⟨hbm, ih htests⟩

omit [Field K] [LinearOrder K] in
theorem registered_fresh (registrations : List (Register W)) :
    ∀ bm ∈ (registered registrations : List (Benchmark W K)), bm.Fresh := by
  induction registrations using List.reverseRecOn with
  | nil => simp [registered]
  | append_singleton registrations registration ih =>
    have hnew : ∀ name, (⟨name, none, []⟩ : Benchmark W K).Fresh := fun name => ⟨by simp, by simp⟩
    rw [registered, List.foldl_append]
    cases registration with
    | test p =>
      refine updateGroup_forall p.groupName
        (f := fun bm => { bm with experiments := bm.experiments ++ [p.experiment false] }) (hnew _) ?_ ih
      refine fun bm hbm => ⟨hbm.baseline, fun e he => ?_⟩
      rcases List.mem_append.mp he with he | he
      · exact hbm.experiments e he
      · rw [List.mem_singleton.mp he]
        exact ⟨rfl, rfl⟩
    | baseline p =>
      refine updateGroup_forall p.groupName (f := fun bm => { bm with baseline := some (p.experiment true) })
        (hnew _) ?_ ih
      refine fun bm hbm => ⟨fun b hb => ?_, hbm.experiments⟩
      cases hb
      exact ⟨rfl, rfl⟩

/-- What `RunAll` does to a group. -/
structure Benchmark.Ran (bm bm' : Benchmark W K) : Prop where
  name : bm'.name = bm.name
  baseline : ∃ b b', bm.baseline = some b ∧ b.Ran b' ∧ bm'.baseline = some (b'.rerun bm.experiments.length)
  experiments : List.Forall₂ Experiment.Ran bm.experiments bm'.experiments

theorem runAllBaselines_spec {tests : List (Benchmark W K)} (hfresh : ∀ bm ∈ tests, bm.Fresh) (env : Env W K) :
    SucceedsIff (RunAllBaselines tests env) (∀ bm ∈ tests, bm.baseline.isSome = true) fun a =>
      List.Forall₂ Benchmark.BaselineRan tests a.1 ∧
        Executed (tests.flatMap Benchmark.baselineSegments) env a.2 (a.1.flatMap Benchmark.baselineResults) := by
  refine SucceedsIff.forEach
    (I := fun done done' s => List.Forall₂ Benchmark.BaselineRan done done' ∧
      Executed (done.flatMap Benchmark.baselineSegments) env s (done'.flatMap Benchmark.baselineResults))
    ⟨.nil, .nil env⟩ fun done done' bm s hI hbm => ?_
  refine (runBaseline_spec (hfresh bm hbm) s).imp fun a _ ha => ⟨List.rel_append hI.1 (.cons ha.1 .nil), ?_⟩
  rw [List.flatMap_append, List.flatMap_append, List.flatMap_singleton, List.flatMap_singleton]
  exact hI.2.append ha.2

theorem runExperiments_afterBaseline {bm bm' : Benchmark W K} (hfresh : bm.Fresh) (hran : bm.BaselineRan bm')
    (env : Env W K) :
    SucceedsIff (RunExperiments bm' env) bm.Within fun a =>
      bm.Ran a.1 ∧ a.1.baselineResults = bm'.baselineResults ∧
        Executed bm.experimentSegments env a.2 a.1.experimentResults := by
  obtain ⟨hsame, b, b', hb, hb', hbran⟩ := hran
  have hexperiments : bm'.experiments = bm.experiments := by rw [hsame]
  have hcase : b.isBaselineCase = true := (hfresh.baseline b hb).1
  refine ((runExperiments_spec hcase hbran hb' (hexperiments ▸ hfresh.experiments) env).imp fun a _ ha => ?_).congr ?_
  · obtain ⟨ha, hall, hexecuted⟩ := ha
    rw [hexperiments] at ha hall
    refine ⟨⟨?_, ⟨b, b', hb, hbran, ?_⟩, hall⟩, ?_, ?_⟩
    · rw [ha, hsame]
    · rw [ha]
    · rw [ha]
      simp only [Benchmark.baselineResults, hb', Option.toList_some, List.flatMap_singleton,
        hbran.firstResults_rerun, hbran.firstResults]
    · have hrerun : b'.rerunSegments = b.rerunSegments := by
        rw [hbran.same]
        rfl
      have hsegments : bm'.experimentSegments = bm.experimentSegments := by
        simp only [Benchmark.experimentSegments, Benchmark.rerunSegments, hexperiments, hb, hb', Option.toList_some,
          List.flatMap_singleton, hrerun]
      rwa [hsegments] at hexecuted
  · simp only [hexperiments, Benchmark.Within, hb, Option.some.injEq, forall_eq']

theorem runAllExperiments_spec {tests tests' : List (Benchmark W K)} (hfresh : ∀ bm ∈ tests, bm.Fresh)
    (hran : List.Forall₂ Benchmark.BaselineRan tests tests') (env : Env W K) :
    SucceedsIff (RunAllExperiments tests' env) (∀ bm ∈ tests, bm.Within) fun a =>
      List.Forall₂ Benchmark.Ran tests a.1 ∧
        a.1.flatMap Benchmark.baselineResults = tests'.flatMap Benchmark.baselineResults ∧
        Executed (tests.flatMap Benchmark.experimentSegments) env a.2
          (a.1.flatMap Benchmark.experimentResults) := by
  induction hran generalizing env with
  | nil => exact (SucceedsIff.ok ⟨.nil, rfl, .nil env⟩).congr (by simp)
  | @cons bm bm' tests tests' hbm _ ih =>
    obtain ⟨hfresh, hrest⟩ := List.forall_mem_cons.mp hfresh
    rw [RunAllExperiments, forEach]
    refine ((runExperiments_afterBaseline hfresh hbm env).bind fun a ha => ?_).congr List.forall_mem_cons.symm
    refine ((ih hrest a.2).bind fun as has => SucceedsIff.ok ?_).congr (and_iff_left trivial)
    simp only [List.flatMap_cons]
    exact ⟨.cons ha.1 has.1, by rw [ha.2.1, has.2.1], ha.2.2.append has.2.2⟩

/-- However the registry was filled, a first `RunAll` comes to an end exactly if every group has a baseline, among
whose problem spaces are those of the experiments. Then the plan has been carried out: all baselines before all
experiments and otherwise in the order of registration, each once for each of its planned problem spaces, and
besides, a baseline without samples again with each experiment of its group. Each result holds the statistics of the
times its own runs measured, and was passed to the callbacks whenever it was run. -/
theorem runAll_plan (registrations : List (Register W)) (env : Env W K) :
    let tests : List (Benchmark W K) := registered registrations
    ((∃ a, RunAll tests env = .ok a) ↔ ∀ bm ∈ tests, bm.baseline.isSome = true ∧ bm.Within) ∧
      ∀ tests' env', RunAll tests env = .ok (tests', env') →
        List.Forall₂ Benchmark.Ran tests tests' ∧ Executed (plan tests) env env' (allResults tests') := by
  intro tests
  have hfresh : ∀ bm ∈ tests, bm.Fresh := registered_fresh registrations
  have hrun : SucceedsIff (RunAll tests env) ((∀ bm ∈ tests, bm.baseline.isSome = true) ∧ ∀ bm ∈ tests, bm.Within)
      fun a => List.Forall₂ Benchmark.Ran tests a.1 ∧ Executed (plan tests) env a.2 (allResults a.1) := by
    refine (runAllBaselines_spec hfresh env).bind fun a ha => ?_
    refine (runAllExperiments_spec hfresh ha.1 a.2).imp fun a' _ ha' => ⟨ha'.1, ?_⟩
    rw [plan, allResults, ha'.2.1]
    exact ha.2.append ha'.2.2
  refine ⟨hrun.iff.trans forall₂_and.symm, fun tests' env' h => (hrun.of_ok _ h).2⟩

/-- With a clock as the world: a run takes as many ticks as it has iterations. -/
def tick (values : List (Int × Nat)) : Factory Nat :=
  ⟨values, fun _ iterations _ world => (iterations, world + iterations)⟩

def twoGroups : List (Register Nat) :=
  [.test ⟨"group", "fast", 3, 2, 1, tick [(10, 0)]⟩, .baseline ⟨"group", "base", 2, 4, 1, tick [(10, 0), (20, 5)]⟩,
    .baseline ⟨"auto", "base", 0, 4, 1, tick [(7, 0)]⟩, .test ⟨"auto", "fast", 1, 1, 1, tick [(7, 0)]⟩]

/-- The baseline of the second group has no samples, and is run again with the experiment. -/
theorem runAll_plan_twoGroups :
    ∃ tests' env', RunAll (registered twoGroups : List (Benchmark Nat ℚ)) ⟨0, []⟩ = .ok (tests', env') ∧
      env'.world = 25 ∧
      env'.completed.map (fun r => (r.problemSpaceValue, r.stats.sampleSize, r.complete)) =
        [(10, 2, true), (20, 2, true), (7, 0, false), (10, 3, true), (7, 0, false), (7, 0, false), (7, 1, true)] := by
  obtain ⟨hiff, hrun⟩ := runAll_plan twoGroups (⟨0, []⟩ : Env Nat ℚ)
  obtain ⟨⟨tests', env'⟩, h⟩ := hiff.mpr (by
    simp [registered, twoGroups, Register.apply, RegisterTest, RegisterBaseline, updateGroup,
      Registration.experiment, Benchmark.Within, Experiment.planned, Experiment.spaces, tick])
  obtain ⟨-, hexecuted⟩ := hrun tests' env' h
  refine ⟨tests', env', h, ?_, ?_⟩
  · rw [hexecuted.world]
    rfl
  · rw [hexecuted.completed, hexecuted.measured]
    decide +kernel

end BenchmarkLibs.Celero

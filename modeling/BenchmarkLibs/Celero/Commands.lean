import BenchmarkLibs.Celero.Plan

/-!
# Any sequence of commands

Each run of an experiment adds its problem spaces anew and then executes all results, the old ones too. So what
the results of an experiment are is a matter of how often it has been run, and for a baseline of whether an
experiment of its group was asked for before the baseline had been run (`commands_results`). A baseline without
samples never is complete, so that it is run again with every experiment.
-/

namespace BenchmarkLibs.Celero

open Fallible Storage

variable {W K : Type} [Field K] [LinearOrder K]

/-- The results after a number of runs: their problem spaces, and how often each was executed. A baseline that
was peeked at, before its first run, has a default result in front. -/
def Experiment.expected (e : Experiment W K) (peeked : Bool) (runs : Nat) : List ((Int × Nat) × Nat) :=
  (if peeked = true ∨ (e.spaces = [] ∧ 0 < runs) then [((NoProblemSpaceValue, e.iterations), runs)] else []) ++
    (List.range runs).flatMap fun j => e.spaces.map fun space => (space, runs - j)

/-- The result of a problem space after a number of executions. -/
structure Result.Is (samples : Nat) (r : Result K) (c : (Int × Nat) × Nat) : Prop where
  problemSpace : r.problemSpace = c.1
  sampleSize : r.stats.sampleSize = c.2 * samples % 2 ^ 64
  complete : r.complete = decide (0 < samples ∧ 0 < c.2)

/-- The experiment `e` after a number of runs. -/
structure Experiment.After (e : Experiment W K) (peeked : Bool) (runs : Nat) (e' : Experiment W K) : Prop where
  same : e' = { e with results := e'.results }
  results : List.Forall₂ (Result.Is e.samples) e'.results (e.expected peeked runs)

/-! ### One run -/

omit [Field K] [LinearOrder K] in
theorem expected_eq_nil_iff (e : Experiment W K) (peeked : Bool) (runs : Nat) :
    e.expected peeked runs = [] ↔ peeked = false ∧ runs = 0 := by
  rcases runs with _ | runs
  · simp [Experiment.expected]
  · constructor
    · intro hnil
      obtain ⟨hfront, hspaces⟩ := List.append_eq_nil_iff.mp hnil
      have hempty : e.spaces = [] := by
        have hfirst := List.flatMap_eq_nil_iff.mp hspaces 0 (List.mem_range.mpr runs.succ_pos)
        exact List.map_eq_nil_iff.mp hfirst
      simp [hempty] at hfront
    · rintro ⟨-, hzero⟩
      exact absurd hzero runs.succ_ne_zero

private theorem batches_succ (spaces : List (Int × Nat)) (runs : Nat) :
    ((List.range (runs + 1)).flatMap fun j => spaces.map fun space => (space, runs + 1 - j)) =
      ((List.range runs).flatMap fun j => spaces.map fun space => (space, runs - j)).map
          (fun c => (c.1, c.2 + 1)) ++
        spaces.map fun space => (space, 1) := by
  rw [List.range_succ, List.flatMap_append, List.map_flatMap, List.flatMap_singleton, Nat.add_sub_cancel_left]
  congr 1
  refine List.flatMap_congr fun j hj => ?_
  have hlt := List.mem_range.mp hj
  rw [List.map_map]
  refine List.map_congr_left fun space _ => ?_
  rw [Function.comp_apply, Nat.sub_add_comm hlt.le]

omit [Field K] [LinearOrder K] in
theorem expected_succ (e : Experiment W K) (peeked : Bool) (runs : Nat) :
    e.expected peeked (runs + 1) =
      (e.expected peeked runs ++
        (if e.expected peeked runs = [] then e.planned else e.spaces).map fun space => (space, 0)).map
          fun c : (Int × Nat) × Nat => (c.1, c.2 + 1) := by
  by_cases hnil : e.expected peeked runs = []
  · obtain ⟨rfl, rfl⟩ := (expected_eq_nil_iff e peeked runs).mp hnil
    rw [if_pos hnil, hnil]
    by_cases hspaces : e.spaces = []
    · simp [Experiment.expected, Experiment.planned, hspaces]
    · simp [Experiment.expected, Experiment.planned, hspaces]
  · have hfront : (peeked = true ∨ (e.spaces = [] ∧ 0 < runs + 1)) ↔
        (peeked = true ∨ (e.spaces = [] ∧ 0 < runs)) := by
      have hne := mt (expected_eq_nil_iff e peeked runs).mpr hnil
      cases peeked with
      | true => simp
      | false =>
        have hpos : 0 < runs := by
          by_contra hzero
          exact hne ⟨rfl, by omega⟩
        simp [hpos]
    rw [if_neg hnil, Experiment.expected, Experiment.expected, batches_succ, List.map_append, List.map_append,
      List.map_map, ← List.append_assoc]
    congr 2
    simp only [hfront]
    split
    · rfl
    · rfl

omit [Field K] [LinearOrder K] in
theorem runTimes_length (f : Factory W) (threads iterations : Nat) (value : Int) (samples : Nat) (world : W) :
    (runTimes f threads iterations value samples world).1.length = samples := by
  induction samples generalizing world with
  | zero => rfl
  | succ samples ih => simp only [runTimes, List.length_cons, ih]

omit [LinearOrder K] in
theorem sampleSize_foldl (times : List Nat) (stats : Statistics K) (hstats : stats.sampleSize < 2 ^ 64) :
    (times.foldl Statistics.addSample stats).sampleSize = (stats.sampleSize + times.length) % 2 ^ 64 := by
  induction times generalizing stats with
  | nil => exact (Nat.mod_eq_of_lt hstats).symm
  | cons x times ih =>
    have hsize : (stats.addSample x).sampleSize = (stats.sampleSize + 1) % 2 ^ 64 := by
      change uint64 (stats.sampleSize + 1) = _
      rw [uint64]
      omega
    rw [List.foldl_cons, ih _ (by omega), hsize, List.length_cons]
    omega

theorem runResult_is {bm : Benchmark W K} {e : Experiment W K} {r r' : Result K} {env env' : Env W K}
    (hrun : runResult bm e r env = .ok (r', env')) {c : (Int × Nat) × Nat} (hr : r.Is e.samples c) :
    r'.Is e.samples (c.1, c.2 + 1) := by
  obtain ⟨env₁, -, hok⟩ := bind_eq_ok.mp hrun
  have hr' : r' = (ExecuteProblemSpace bm e r
      (env.print (.rowHeader bm.name e.name r.problemSpaceValue e.samples r.problemSpaceIterations))).1 := by
    cases hok
    rfl
  rw [hr', ExecuteProblemSpace]
  split
  · rename_i hsamples
    refine ⟨hr.problemSpace, ?_, by simp [hsamples]⟩
    simp only [runSamples_eq]
    rw [sampleSize_foldl, hr.sampleSize, runTimes_length]
    · rw [Nat.mod_add_mod, Nat.succ_mul]
    · rw [hr.sampleSize]
      exact Nat.mod_lt _ (by norm_num)
  · rename_i hsamples
    have hzero : e.samples = 0 := by omega
    refine ⟨hr.problemSpace, ?_, ?_⟩
    · rw [hr.sampleSize, hzero, Nat.mul_zero, Nat.mul_zero]
    · rw [hr.complete]
      simp [hzero]

theorem Experiment.After.execute {bm : Benchmark W K} {e e' e'' : Experiment W K} {peeked : Bool} {runs : Nat}
    (h : e.After peeked runs e') {fallback : Int} {env env' : Env W K}
    (hrun : e'.execute bm fallback env = .ok (e'', env')) : e.After peeked (runs + 1) e'' := by
  obtain ⟨a, hloop, hok⟩ := bind_eq_ok.mp hrun
  have hsame := h.same
  have hspaces : e'.spaces = e.spaces := by rw [hsame]; rfl
  have hplanned : e'.planned = e.planned := by rw [hsame]; rfl
  have hempty : e'.results = [] ↔ e.expected peeked runs = [] := by
    rw [← List.length_eq_zero_iff, ← List.length_eq_zero_iff, h.results.length_eq]
  rw [populate_eq] at hloop
  obtain ⟨cs, hcs⟩ : ∃ cs, cs = e.expected peeked runs ++
    (if e.expected peeked runs = [] then e.planned else e.spaces).map fun space => (space, 0) := ⟨_, rfl⟩
  have hpopulated : List.Forall₂ (Result.Is e.samples)
      (e'.results ++ (if e'.results = [] then e'.planned else e'.spaces).map Result.fresh) cs := by
    rw [hcs]
    refine List.rel_append h.results ?_
    simp only [hempty, hplanned, hspaces]
    rw [List.forall₂_map_left_iff, List.forall₂_map_right_iff, List.forall₂_same]
    intro space _
    exact ⟨rfl, by simp [Result.fresh, Statistics.empty], by simp [Result.fresh]⟩
  have hsamples : e'.samples = e.samples := by rw [hsame]
  have hexecuted : List.Forall₂ (fun (c : (Int × Nat) × Nat) r => Result.Is e.samples r (c.1, c.2 + 1)) cs a.1 := by
    refine forall₂_trans (fun c r r' hr hr' => ?_) hpopulated.flip (forEach_forall₂ hloop)
    obtain ⟨s, s', hok⟩ := hr'
    rw [← hsamples]
    exact runResult_is hok (by rw [← hsamples] at hr; exact hr)
  cases hok
  refine ⟨?_, ?_⟩
  · rw [populate_eq, hsame]
  · rw [expected_succ, ← hcs, List.forall₂_map_right_iff]
    exact hexecuted.flip

/-! ### One group -/

/-- The group `bm` after a number of runs of its baseline, and a number of runs of each experiment. -/
structure Benchmark.State (bm : Benchmark W K) (peeked : Bool) (runs : Nat) (counts : Nat → Nat)
    (bm' : Benchmark W K) : Prop where
  name : bm'.name = bm.name
  baseline : Option.Rel (fun b b' => Experiment.After b peeked runs b') bm.baseline bm'.baseline
  length : bm'.experiments.length = bm.experiments.length
  experiments : ∀ i (e e' : Experiment W K), bm.experiments[i]? = some e → bm'.experiments[i]? = some e' →
    e.After false (counts i) e'

section State

variable {bm bm' : Benchmark W K} {peeked : Bool} {runs : Nat} {counts : Nat → Nat} {env : Env W K}
  {a : Benchmark W K × Env W K}

theorem Benchmark.State.runBaseline (h : bm.State peeked runs counts bm') (hrun : RunBaseline bm' env = .ok a) :
    bm.State peeked (runs + 1) counts a.1 := by
  unfold RunBaseline at hrun
  have hrel := h.baseline
  cases hb' : bm'.baseline with
  | none => simp [hb'] at hrun
  | some b' =>
    rw [hb'] at hrel hrun
    obtain ⟨⟨b'', env''⟩, hexecute, hok⟩ := bind_eq_ok.mp hrun
    cases hok
    refine ⟨h.name, ?_, h.length, h.experiments⟩
    cases hb : bm.baseline with
    | none => simp [hb] at hrel
    | some b =>
      rw [hb] at hrel
      cases hrel with
      | some hafter => exact .some (hafter.execute hexecute)

omit [Field K] [LinearOrder K] in
theorem expected_pos {e : Experiment W K} (hruns : 0 < runs) : ∀ c ∈ e.expected peeked runs, 0 < c.2 := by
  intro c hc
  rcases List.mem_append.mp hc with hfront | hbatch
  · split at hfront
    · rw [List.mem_singleton.mp hfront]
      exact hruns
    · simp at hfront
  · obtain ⟨j, hj, hc⟩ := List.mem_flatMap.mp hbatch
    obtain ⟨space, -, rfl⟩ := List.mem_map.mp hc
    exact Nat.sub_pos_of_lt (List.mem_range.mp hj)

omit [Field K] [LinearOrder K] in
theorem Experiment.After.complete {e e' : Experiment W K} (h : e.After peeked runs e') (hruns : 0 < runs) :
    e'.results ≠ [] ∧ ∀ r ∈ e'.results, r.complete = decide (0 < e.samples) := by
  constructor
  · intro hnil
    have hexpected : e.expected peeked runs = [] := by
      rw [← List.length_eq_zero_iff, ← h.results.length_eq, hnil, List.length_nil]
    have hzero := ((expected_eq_nil_iff e peeked runs).mp hexpected).2
    omega
  · intro r hr
    obtain ⟨i, hi, hget⟩ := List.mem_iff_getElem.mp hr
    have his := h.results.get hi (h.results.length_eq ▸ hi)
    have hpos := expected_pos hruns _ (List.getElem_mem (h.results.length_eq ▸ hi))
    rw [← hget]
    exact his.complete.trans (decide_eq_decide.mpr (and_iff_left hpos))

/-- How often a baseline that has been run is run again with an experiment. -/
def Benchmark.reruns (bm : Benchmark W K) : Nat := if bm.baseline.map Experiment.samples = some 0 then 1 else 0

theorem Benchmark.State.ensureBaseline (h : bm.State peeked runs counts bm') (hruns : 0 < runs)
    (hrun : Celero.ensureBaseline bm' env = .ok a) : bm.State peeked (runs + bm.reruns) counts a.1 := by
  have hrel := h.baseline
  cases hb' : bm'.baseline with
  | none => simp [Celero.ensureBaseline, hb'] at hrun
  | some b' =>
    cases hb : bm.baseline with
    | none => simp [hb, hb'] at hrel
    | some b =>
      rw [hb, hb'] at hrel
      cases hrel with
      | some hafter =>
        obtain ⟨hne, hcomplete⟩ := hafter.complete hruns
        have hreruns : bm.reruns = if b.samples = 0 then 1 else 0 := by simp [Benchmark.reruns, hb]
        by_cases hsamples : b.samples = 0
        · have hincomplete : ∀ r ∈ b'.results, r.complete = false := by simpa [hsamples] using hcomplete
          rw [ensureBaseline_incomplete hb' hne hincomplete] at hrun
          rw [hreruns, if_pos hsamples]
          exact h.runBaseline hrun
        · have hcomplete' : ∀ r ∈ b'.results, r.complete = true := by
            simpa [Nat.pos_of_ne_zero hsamples] using hcomplete
          rw [ensureBaseline_complete hb' hne hcomplete'] at hrun
          cases hrun
          rw [hreruns, if_neg hsamples]
          exact h

/-- The first call for an experiment, before anything of its group has been run. -/
theorem Benchmark.State.ensureBaseline_first (h : bm.State false 0 counts bm')
    (hrun : Celero.ensureBaseline bm' env = .ok a) : bm.State true 1 counts a.1 := by
  have hrel := h.baseline
  cases hb' : bm'.baseline with
  | none => simp [Celero.ensureBaseline, hb'] at hrun
  | some b' =>
    cases hb : bm.baseline with
    | none => simp [hb, hb'] at hrel
    | some b =>
      rw [hb, hb'] at hrel
      cases hrel with
      | some hafter =>
        have hnil : b'.results = [] := by
          rw [← List.length_eq_zero_iff, hafter.results.length_eq, (expected_eq_nil_iff b false 0).mpr ⟨rfl, rfl⟩,
            List.length_nil]
        -- asking for the number of results adds the default one, which is not complete
        have hsize : b'.getResultSize = (1, b'.addProblemSpace NoProblemSpaceValue b'.iterations) := by
          simp [Experiment.getResultSize, Experiment.addProblemSpace, hnil]
        simp only [Celero.ensureBaseline, hb', hsize] at hrun
        rw [if_pos (Or.inr (by simp [Experiment.addProblemSpace, hnil]))] at hrun
        have hpeeked : bm.State true 0 counts
            { bm' with baseline := some (b'.addProblemSpace NoProblemSpaceValue b'.iterations) } := by
          refine ⟨h.name, ?_, h.length, h.experiments⟩
          rw [hb]
          refine .some ⟨?_, ?_⟩
          · rw [hafter.same]
            rfl
          · have hiterations : b'.iterations = b.iterations := by rw [hafter.same]
            simp only [Experiment.addProblemSpace, hnil, hiterations, Experiment.expected, List.nil_append,
              true_or, if_true, List.range_zero, List.flatMap_nil, List.append_nil]
            exact .cons ⟨rfl, by simp [Statistics.empty], by simp⟩ .nil
        exact hpeeked.runBaseline hrun

/-- The part of `RunExperiment` after the baseline has been seen to. -/
theorem Benchmark.State.executeAt (h : bm.State peeked runs counts bm') {i : Nat}
    (hrun : (match bm'.experiments[i]? with
      | none => .error (.fault .outOfRange)
      | some e => do
        let (e, env) ← e.execute bm' 0 env
        .ok ({ bm' with experiments := bm'.experiments.set i e }, env)) = Except.ok a) :
    bm.State peeked runs (fun k => counts k + if k = i then 1 else 0) a.1 := by
  cases he : bm'.experiments[i]? with
  | none => simp [he] at hrun
  | some e =>
    simp only [he] at hrun
    obtain ⟨⟨e', env₂⟩, hexecute, hok⟩ := bind_eq_ok.mp hrun
    cases hok
    refine ⟨h.name, h.baseline, ?_, fun k e₀ e₁ he₀ he₁ => ?_⟩
    · rw [← h.length]
      exact List.length_set
    · by_cases hk : k = i
      · subst hk
        rw [if_pos rfl]
        have hlt : k < bm'.experiments.length := (List.getElem?_eq_some_iff.mp he).1
        simp only [List.getElem?_set_self hlt, Option.some.injEq] at he₁
        rw [← he₁]
        exact (h.experiments k e₀ e he₀ he).execute hexecute
      · rw [if_neg hk]
        simp only [List.getElem?_set_ne (Ne.symm hk)] at he₁
        exact h.experiments k e₀ e₁ he₀ he₁

theorem Benchmark.State.runExperiment (h : bm.State peeked runs counts bm') (hruns : 0 < runs) {i : Nat}
    (hrun : RunExperiment i bm' env = .ok a) :
    bm.State peeked (runs + bm.reruns) (fun k => counts k + if k = i then 1 else 0) a.1 := by
  obtain ⟨⟨bm₁, env₁⟩, hensure, hrest⟩ := bind_eq_ok.mp hrun
  exact (h.ensureBaseline hruns hensure).executeAt hrest

theorem Benchmark.State.runExperiment_first (h : bm.State false 0 counts bm') {i : Nat}
    (hrun : RunExperiment i bm' env = .ok a) :
    bm.State true 1 (fun k => counts k + if k = i then 1 else 0) a.1 := by
  obtain ⟨⟨bm₁, env₁⟩, hensure, hrest⟩ := bind_eq_ok.mp hrun
  exact (h.ensureBaseline_first hensure).executeAt hrest

theorem Benchmark.State.runExperiments (h : bm.State peeked runs counts bm') (hruns : 0 < runs)
    (hrun : RunExperiments bm' env = .ok a) :
    bm.State peeked (runs + bm.experiments.length * bm.reruns) (fun k => counts k + 1) a.1 := by
  have hloop : bm.State peeked (runs + bm'.experiments.length * bm.reruns)
      (fun k => counts k + if k < bm'.experiments.length then 1 else 0) a.1 := by
    refine foldlM_range_preserves
      (P := fun i (s : Benchmark W K × Env W K) =>
        bm.State peeked (runs + i * bm.reruns) (fun k => counts k + if k < i then 1 else 0) s.1)
      hrun (by simpa using h) fun i s s' _ hturn hs => ?_
    have hnext := hs.runExperiment (by omega) hturn
    have hcounts : (fun k => counts k + (if k < i then 1 else 0) + if k = i then 1 else 0)
        = fun k => counts k + if k < i + 1 then 1 else 0 := by
      funext k
      split <;> split <;> split <;> omega
    rw [← hcounts, Nat.succ_mul, ← Nat.add_assoc]
    exact hnext
  rw [h.length] at hloop
  refine ⟨hloop.name, hloop.baseline, hloop.length, fun k e e' he he' => ?_⟩
  have hlt : k < bm.experiments.length := (List.getElem?_eq_some_iff.mp he).1
  have hafter := hloop.experiments k e e' he he'
  rw [if_pos hlt] at hafter
  exact hafter

end State

/-! ### Commands -/

/-- What a command asks of a group. -/
inductive Action
  | all
  | one (experimentName : String)

def Action.isAll : Action → Bool
  | .all => true
  | .one _ => false

def Command.on (groupName : String) : Command → Option Action
  | .runAll => some .all
  | .run benchmarkName => if groupName = benchmarkName then some .all else none
  | .runOne benchmarkName experimentName => if groupName = benchmarkName then some (.one experimentName) else none

/-- Whether an action runs the experiment number `i`: of those that share a name, only the first can be run
alone. -/
def Benchmark.selects (bm : Benchmark W K) (i : Nat) : Action → Bool
  | .all => true
  | .one experimentName => (bm.experiments.findIdx? fun e => e.name == experimentName) == some i

def peekedBy (actions : List Action) : Bool := actions.head?.any fun action => !action.isAll

/-- How often the actions run the baseline of the group `bm`. -/
def Benchmark.baselineRuns (bm : Benchmark W K) (actions : List Action) : Nat :=
  actions.countP Action.isAll * (1 + bm.experiments.length * bm.reruns) +
    if bm.reruns = 0 then (peekedBy actions).toNat else actions.countP fun action => !action.isAll

/-- The group `bm` after the actions. -/
def Benchmark.After (bm : Benchmark W K) (actions : List Action) (bm' : Benchmark W K) : Prop :=
  bm.State (peekedBy actions) (bm.baselineRuns actions) (fun i => actions.countP (bm.selects i)) bm'

theorem peekedBy_append {actions : List Action} (hne : actions ≠ []) (action : Action) :
    peekedBy (actions ++ [action]) = peekedBy actions := by
  obtain ⟨first, rest, rfl⟩ := List.exists_cons_of_ne_nil hne
  rfl

section BaselineRuns

omit [Field K] [LinearOrder K]

variable (bm : Benchmark W K)

theorem reruns_cases : bm.reruns = 0 ∨ bm.reruns = 1 := by
  unfold Benchmark.reruns
  split <;> simp

theorem baselineRuns_nil : bm.baselineRuns [] = 0 := by
  rcases reruns_cases bm with hreruns | hreruns
  · simp [Benchmark.baselineRuns, hreruns, peekedBy]
  · simp [Benchmark.baselineRuns, hreruns]

theorem baselineRuns_all (actions : List Action) : bm.baselineRuns (actions ++ [.all]) =
    bm.baselineRuns actions + 1 + bm.experiments.length * bm.reruns := by
  have hpeeked : peekedBy (actions ++ [.all]) = peekedBy actions := by
    cases actions <;> rfl
  have hall : Action.all.isAll = true := rfl
  simp only [Benchmark.baselineRuns, hpeeked, List.countP_append, List.countP_singleton, hall, if_true,
    Bool.not_true, Bool.false_eq_true, if_false, Nat.add_zero, Nat.succ_mul]
  omega

theorem baselineRuns_one {actions : List Action} (hne : actions ≠ []) (experimentName : String) :
    bm.baselineRuns (actions ++ [.one experimentName]) = bm.baselineRuns actions + bm.reruns := by
  have hone : (Action.one experimentName).isAll = false := rfl
  simp only [Benchmark.baselineRuns, peekedBy_append hne, List.countP_append, List.countP_singleton, hone,
    Bool.false_eq_true, if_false, Bool.not_false, if_true, Nat.add_zero]
  rcases reruns_cases bm with hreruns | hreruns
  · rw [if_pos hreruns, if_pos hreruns, hreruns, Nat.add_zero]
  · simp only [hreruns, Nat.one_ne_zero, if_false]
    omega

theorem baselineRuns_first (experimentName : String) : bm.baselineRuns [.one experimentName] = 1 := by
  rcases reruns_cases bm with hreruns | hreruns
  · simp [Benchmark.baselineRuns, hreruns, peekedBy, Action.isAll]
  · simp [Benchmark.baselineRuns, hreruns, Action.isAll]

theorem baselineRuns_pos {actions : List Action} (hne : actions ≠ []) : 0 < bm.baselineRuns actions := by
  induction actions using List.reverseRecOn with
  | nil => exact absurd rfl hne
  | append_singleton actions action ih =>
    cases action with
    | all =>
      rw [baselineRuns_all]
      omega
    | one experimentName =>
      cases actions with
      | nil => exact (baselineRuns_first bm experimentName).ge
      | cons action actions =>
        rw [baselineRuns_one bm (List.cons_ne_nil action actions)]
        exact Nat.add_pos_left (ih (List.cons_ne_nil action actions)) _

end BaselineRuns

section After

variable {bm bm' : Benchmark W K} {actions : List Action} {env : Env W K} {a : Benchmark W K × Env W K}

theorem Benchmark.After.runBaseline (h : bm.After actions bm') (hrun : RunBaseline bm' env = .ok a) :
    bm.State (peekedBy (actions ++ [.all])) (bm.baselineRuns actions + 1)
      (fun i => actions.countP (bm.selects i)) a.1 := by
  have hpeeked : peekedBy (actions ++ [.all]) = peekedBy actions := by
    cases actions <;> rfl
  rw [hpeeked]
  exact Benchmark.State.runBaseline h hrun

theorem Benchmark.After.all {bm'' : Benchmark W K}
    (h : bm.State (peekedBy (actions ++ [.all])) (bm.baselineRuns actions + 1)
      (fun i => actions.countP (bm.selects i)) bm'')
    (hrun : RunExperiments bm'' env = .ok a) : bm.After (actions ++ [.all]) a.1 := by
  have hnext := h.runExperiments (Nat.succ_pos _) hrun
  have hcounts : (fun i => actions.countP (bm.selects i) + 1) =
      fun i => (actions ++ [Action.all]).countP (bm.selects i) := by
    funext i
    rw [List.countP_append, List.countP_singleton]
    rfl
  rw [Benchmark.After, ← hcounts, baselineRuns_all]
  exact hnext

omit [Field K] [LinearOrder K] in
theorem Benchmark.State.names {peeked : Bool} {runs : Nat} {counts : Nat → Nat}
    (h : bm.State peeked runs counts bm') :
    bm'.experiments.map Experiment.name = bm.experiments.map Experiment.name := by
  refine List.ext_getElem? fun i => ?_
  rw [List.getElem?_map, List.getElem?_map]
  cases he : bm.experiments[i]? with
  | none =>
    have hnone : bm'.experiments[i]? = none := by
      rw [List.getElem?_eq_none_iff] at he ⊢
      exact h.length ▸ he
    rw [hnone]
  | some e =>
    have hlt : i < bm'.experiments.length := h.length ▸ (List.getElem?_eq_some_iff.mp he).1
    rw [List.getElem?_eq_getElem hlt, Option.map_some, Option.map_some,
      (h.experiments i e _ he (List.getElem?_eq_getElem hlt)).same]

theorem Benchmark.After.one (h : bm.After actions bm') {experimentName : String}
    (hrun : RunNamed experimentName bm' env = .ok a) :
    bm.After (actions ++ [.one experimentName]) a.1 := by
  have hindex : (bm'.experiments.findIdx? fun e => e.name == experimentName)
      = bm.experiments.findIdx? fun e => e.name == experimentName := by
    have hmap : ∀ es : List (Experiment W K), (es.findIdx? fun e => e.name == experimentName)
        = (es.map Experiment.name).findIdx? fun name => name == experimentName :=
      fun es => by rw [List.findIdx?_map]; rfl
    rw [hmap, hmap, h.names]
  unfold RunNamed at hrun
  rw [hindex] at hrun
  cases hfound : bm.experiments.findIdx? fun e => e.name == experimentName with
  | none => simp [hfound] at hrun
  | some i =>
    rw [hfound] at hrun
    have hcounts : (fun k => actions.countP (bm.selects k) + if k = i then 1 else 0)
        = fun k => (actions ++ [Action.one experimentName]).countP (bm.selects k) := by
      funext k
      rw [List.countP_append, List.countP_singleton]
      simp only [Benchmark.selects, hfound, beq_iff_eq, Option.some.injEq]
      simp only [eq_comm]
    rw [Benchmark.After, ← hcounts]
    rcases List.eq_nil_or_concat actions with rfl | ⟨_, _, hne⟩
    · rw [List.nil_append, baselineRuns_first]
      rw [Benchmark.After, baselineRuns_nil] at h
      exact Benchmark.State.runExperiment_first h hrun
    · have hne' : actions ≠ [] := by simp [hne]
      rw [peekedBy_append hne', baselineRuns_one bm hne']
      exact Benchmark.State.runExperiment h (baselineRuns_pos bm hne') hrun

end After

omit [Field K] [LinearOrder K] in
theorem names_updateGroup (groupName : String) {f : Benchmark W K → Benchmark W K} (hf : ∀ bm, (f bm).name = bm.name)
    (tests : List (Benchmark W K)) :
    (updateGroup groupName f tests).map Benchmark.name =
      tests.map Benchmark.name ++ if groupName ∈ tests.map Benchmark.name then [] else [groupName] := by
  induction tests with
  | nil => simp [updateGroup, hf]
  | cons bm tests ih =>
    rw [updateGroup]
    by_cases hname : bm.name = groupName
    · simp [hname, hf]
    · rw [if_neg hname, List.map_cons, ih]
      simp [Ne.symm hname]

omit [Field K] [LinearOrder K] in
theorem registered_nodup (registrations : List (Register W)) :
    ((registered registrations : List (Benchmark W K)).map Benchmark.name).Nodup := by
  have hupdate : ∀ (groupName : String) (f : Benchmark W K → Benchmark W K) (tests : List (Benchmark W K)),
      (∀ bm, (f bm).name = bm.name) → (tests.map Benchmark.name).Nodup →
      ((updateGroup groupName f tests).map Benchmark.name).Nodup := by
    intro groupName f tests hf htests
    rw [names_updateGroup groupName hf]
    split
    · rw [List.append_nil]
      exact htests
    · rename_i hnew
      exact htests.append (List.nodup_singleton _) (List.disjoint_singleton.mpr hnew)
  induction registrations using List.reverseRecOn with
  | nil => simp [registered]
  | append_singleton registrations registration ih =>
    rw [registered, List.foldl_append]
    cases registration with
    | test p => exact hupdate _ _ _ (fun _ => rfl) ih
    | baseline p => exact hupdate _ _ _ (fun _ => rfl) ih

omit [Field K] [LinearOrder K] in
theorem onGroup_forall₂ {benchmarkName : String}
    {f : Benchmark W K → Env W K → Except Stop (Benchmark W K × Env W K)} {tests : List (Benchmark W K)}
    {env : Env W K} {a : List (Benchmark W K) × Env W K} (hnodup : (tests.map Benchmark.name).Nodup)
    (hrun : onGroup benchmarkName f tests env = .ok a) :
    List.Forall₂ (fun bm bm' => (bm.name = benchmarkName ∧ ∃ env env', f bm env = .ok (bm', env')) ∨
      (bm.name ≠ benchmarkName ∧ bm' = bm)) tests a.1 := by
  induction tests generalizing env a with
  | nil =>
    cases hrun
    exact .nil
  | cons bm tests ih =>
    rw [List.map_cons, List.nodup_cons] at hnodup
    rw [onGroup] at hrun
    split at hrun
    · rename_i hname
      obtain ⟨first, hfirst, hrun⟩ := bind_eq_ok.mp hrun
      cases hrun
      refine .cons (Or.inl ⟨hname, env, first.2, hfirst⟩) (List.forall₂_same.mpr fun bm' hbm' => Or.inr ⟨?_, rfl⟩)
      intro hname'
      exact hnodup.1 (hname ▸ hname' ▸ List.mem_map_of_mem hbm')
    · rename_i hname
      obtain ⟨rest, hrest, hrun⟩ := bind_eq_ok.mp hrun
      cases hrun
      exact .cons (Or.inr ⟨hname, rfl⟩) (ih hnodup.2 hrest)

/-- The groups after the commands. -/
def Afterwards (commands : List Command) (tests tests' : List (Benchmark W K)) : Prop :=
  List.Forall₂ (fun bm bm' => bm.After (commands.filterMap (Command.on bm.name)) bm') tests tests'

theorem Afterwards.apply {commands : List Command} {tests tests' : List (Benchmark W K)} {env : Env W K}
    {command : Command} {a : List (Benchmark W K) × Env W K} (h : Afterwards commands tests tests')
    (hnodup : (tests.map Benchmark.name).Nodup)
    (hrun : command.apply (tests', env) = .ok a) : Afterwards (commands ++ [command]) tests a.1 := by
  have hactions : ∀ name, (commands ++ [command]).filterMap (Command.on name)
      = commands.filterMap (Command.on name) ++ (command.on name).toList := by
    intro name
    rw [List.filterMap_append]
    cases hon : command.on name <;> simp [List.filterMap, hon]
  have hnames : tests'.map Benchmark.name = tests.map Benchmark.name := by
    have heq := h.imp fun bm bm' hbm => hbm.name.symm
    rw [← List.forall₂_eq_eq_eq, List.forall₂_map_left_iff, List.forall₂_map_right_iff]
    exact (h.imp fun bm bm' hbm => hbm.name).flip
  rw [Afterwards]
  simp only [hactions]
  cases command with
  | runAll =>
    obtain ⟨first, hbaselines, hexperiments⟩ := bind_eq_ok.mp hrun
    refine forall₂_trans (fun bm bm' bm'' hbm hstep => ?_) h
      (forall₂_trans (fun _ bm₁ _ hbaseline hrest => Exists.intro bm₁ (And.intro hbaseline hrest))
        (forEach_forall₂ hbaselines) (forEach_forall₂ hexperiments))
    obtain ⟨bm₁, ⟨_, _, hbaseline⟩, _, _, hrest⟩ := hstep
    exact Benchmark.After.all (hbm.runBaseline hbaseline) hrest
  | run benchmarkName =>
    refine forall₂_trans (fun bm bm' bm'' hbm hstep => ?_) h (onGroup_forall₂ (hnames ▸ hnodup) hrun)
    rcases hstep with ⟨hname, _, _, hok⟩ | ⟨hname, rfl⟩
    · rw [hbm.name] at hname
      subst hname
      obtain ⟨⟨bm₁, env₁⟩, hbaseline, hrest⟩ := bind_eq_ok.mp hok
      simp only [Command.on, if_true, Option.toList_some]
      exact Benchmark.After.all (hbm.runBaseline hbaseline) hrest
    · rw [hbm.name] at hname
      simp only [Command.on, hname, if_false, Option.toList_none, List.append_nil]
      exact hbm
  | runOne benchmarkName experimentName =>
    refine forall₂_trans (fun bm bm' bm'' hbm hstep => ?_) h (onGroup_forall₂ (hnames ▸ hnodup) hrun)
    rcases hstep with ⟨hname, _, _, hok⟩ | ⟨hname, rfl⟩
    · rw [hbm.name] at hname
      subst hname
      simp only [Command.on, if_true, Option.toList_some]
      exact hbm.one hok
    · rw [hbm.name] at hname
      simp only [Command.on, hname, if_false, Option.toList_none, List.append_nil]
      exact hbm

omit [Field K] [LinearOrder K] in
theorem Benchmark.Fresh.after {bm : Benchmark W K} (h : bm.Fresh) : bm.After [] bm := by
  have hnew : ∀ e : Experiment W K, e.results = [] → e.After false 0 e := by
    intro e hresults
    refine ⟨rfl, ?_⟩
    rw [hresults, (expected_eq_nil_iff e false 0).mpr ⟨rfl, rfl⟩]
    exact .nil
  refine ⟨rfl, ?_, rfl, fun i e e' he he' => ?_⟩
  · cases hb : bm.baseline with
    | none => exact .none
    | some b =>
      rw [baselineRuns_nil]
      exact .some (hnew b (h.baseline b hb).2)
  · cases he.symm.trans he'
    exact hnew e (h.experiments e (List.mem_of_getElem? he)).2

/-- Whatever commands are executed, as long as none stops the program: an experiment has the results of as many
runs as there were commands for all of its group or for itself by name. Each run adds its problem spaces anew
and takes `samples` more samples for every result there is. The baseline is run by the commands for all of the
group, and once more where the first command was for one experiment; then it also has a result for
`NoProblemSpaceValue`. A baseline without samples is run again with every experiment. -/
theorem commands_results (registrations : List (Register W)) (commands : List Command)
    {env env' : Env W K} {tests' : List (Benchmark W K)}
    (hrun : commands.foldlM Command.apply (registered registrations, env) = .ok (tests', env')) :
    Afterwards commands (registered registrations) tests' := by
  induction commands using List.reverseRecOn generalizing tests' env' with
  | nil =>
    cases hrun
    exact List.forall₂_same.mpr fun bm hbm => (registered_fresh registrations bm hbm).after
  | append_singleton commands command ih =>
    rw [List.foldlM_append] at hrun
    obtain ⟨⟨tests₁, env₁⟩, hfirst, hlast⟩ := bind_eq_ok.mp hrun
    rw [List.foldlM_cons] at hlast
    obtain ⟨last, hcommand, hlast⟩ := bind_eq_ok.mp hlast
    cases hlast
    exact (ih hfirst).apply (registered_nodup registrations) hcommand

theorem commands_results_twoGroups :
    ∃ tests' env', [Command.runOne "group" "fast", .runAll].foldlM Command.apply
        (registered twoGroups, (⟨0, []⟩ : Env Nat ℚ)) = .ok (tests', env') ∧
      Afterwards [.runOne "group" "fast", .runAll] (registered twoGroups) tests' ∧
      tests'.map (fun bm => (bm.baseline.toList.flatMap Experiment.results).map
        fun r => (r.problemSpaceValue, r.stats.sampleSize)) =
        [[(NoProblemSpaceValue, 4), (10, 4), (20, 4), (10, 2), (20, 2)], [(7, 0), (7, 0)]] := by
  have hresults : (([Command.runOne "group" "fast", .runAll].foldlM Command.apply
      (registered twoGroups, (⟨0, []⟩ : Env Nat ℚ))).toOption.map fun a =>
        a.1.map fun bm => (bm.baseline.toList.flatMap Experiment.results).map
          fun r => (r.problemSpaceValue, r.stats.sampleSize)) =
      some [[(NoProblemSpaceValue, 4), (10, 4), (20, 4), (10, 2), (20, 2)], [(7, 0), (7, 0)]] := by
    decide +kernel
  cases hrun : [Command.runOne "group" "fast", .runAll].foldlM Command.apply
      (registered twoGroups, (⟨0, []⟩ : Env Nat ℚ)) with
  | error stop =>
    rw [hrun] at hresults
    cases hresults
  | ok a =>
    rw [hrun] at hresults
    exact ⟨a.1, a.2, rfl, commands_results twoGroups _ hrun, Option.some.inj hresults⟩

end BenchmarkLibs.Celero

import BenchmarkLibs.GoogleBenchmark.Timer
import Mathlib.Algebra.Order.BigOperators.Group.List
import Mathlib.Algebra.BigOperators.Pi

/-!
# A try of a benchmark

A benchmark keeps its contract when its function returns after `KeepRunning` has returned false, when it stops
and starts the timer in turn, and when all threads call alike (`Instance.Keeps`). Then, whatever the schedule, the
threads are in step, no `CHECK` fails, and the try ends with the readings that `RunBenchmark` takes.
-/

namespace BenchmarkLibs.GoogleBenchmark

open Barrier

variable {K : Type}

/-! ### Stopping and starting in turn -/

/-- Whether the timer runs after some calls, and none where it would refuse one. -/
def timed : Bool → List Kind → Option Bool
  | running, [] => some running
  | running, .start _ :: kinds => if running then none else timed true kinds
  | running, .stop _ :: kinds => if running then timed false kinds else none
  | running, .set :: kinds => timed running kinds

theorem timed_append (running : Bool) (kinds kinds' : List Kind) :
    timed running (kinds ++ kinds') = (timed running kinds).bind fun r => timed r kinds' := by
  induction kinds generalizing running with
  | nil => rfl
  | cons kind kinds ih =>
    cases kind with
    | start => cases running <;> simp [timed, ih]
    | stop => cases running <;> simp [timed, ih]
    | set => simp [timed, ih]

/-- What leaves the timer running each time leaves it running however often it is called. -/
theorem timed_flatMap {kinds : Nat → List Kind} (h : ∀ k, timed true (kinds k) = some true) (ks : List Nat) :
    timed true (ks.flatMap kinds) = some true := by
  induction ks with
  | nil => rfl
  | cons k ks ih =>
    rw [List.flatMap_cons, timed_append, h]
    exact ih

def kindsOf (calls : List (Call K)) : List Kind := calls.filterMap Call.kind

theorem kindsOf_append (calls calls' : List (Call K)) :
    kindsOf (calls ++ calls') = kindsOf calls ++ kindsOf calls' := List.filterMap_append

theorem countP_throughBarrier (calls : List (Call K)) :
    calls.countP Call.throughBarrier = (kindsOf calls).length := by
  rw [kindsOf, List.length_filterMap_eq_countP]
  rfl

/-! ### The calls of the threads -/

def Instance.state (b : Instance K) (iters thread_id : Nat) : State :=
  ⟨false, 0, b.has_arg1, b.arg1, b.has_arg2, b.arg2, 0, 0, thread_id, b.threads, iters⟩

/-- What the benchmark's function calls in a thread, and the state when it returns. -/
def Instance.ran (b : Instance K) (iters thread_id : Nat) : List (Call K) × State :=
  (b.benchmark (b.state iters thread_id)).run (b.state iters thread_id)

/-- A `CHECK` that fails in the constructor of `State` is all a thread comes to. -/
def threadCalls (b : Instance K) (iters : Nat) (t : Fin b.threads) : List (Call K) :=
  match runInThread b iters t with
  | .ok calls => calls
  | .error failed => [.check false failed]

/-- What a thread calls when the function has returned. -/
def Instance.closing (b : Instance K) (iters thread_id : Nat) : List (Call K) :=
  [.check ((b.ran iters thread_id).2.total_iterations_ == (b.ran iters thread_id).2.max_iterations) .keepRunning,
    .addStats (b.ran iters thread_id).2.bytes_processed_ (b.ran iters thread_id).2.items_processed_, .finalize]

theorem threadCalls_eq (b : Instance K) {iters : Nat} (hiters : iters ≠ 0) (t : Fin b.threads) :
    threadCalls b iters t = (b.ran iters t).1 ++ b.closing iters t := by
  have hcreate : State.create iters b.has_arg1 b.arg1 b.has_arg2 b.arg2 t b.threads = .ok (b.state iters t) := by
    simp [State.create, hiters, Instance.state]
  have hrun : runInThread b iters t = .ok ((b.ran iters t).1 ++ b.closing iters t) := by
    unfold runInThread
    rw [hcreate]
    rfl
  rw [threadCalls, hrun]

/-- The calls through the barrier of the thread 0. -/
def Instance.kinds (b : Instance K) (iters : Nat) : List Kind := kindsOf (b.ran iters 0).1

/-- What is asked of a benchmark's function: it returns when `KeepRunning` has returned false, the timer is
started and stopped in turn, all threads call alike, and no more often than phases can be counted. -/
structure Instance.Keeps (b : Instance K) (iters : Nat) : Prop where
  returns : ∀ t < b.threads, (b.ran iters t).2.total_iterations_ = (b.ran iters t).2.max_iterations
  timed : timed false (b.kinds iters) = some false
  alike : ∀ t < b.threads, kindsOf (b.ran iters t).1 = b.kinds iters
  few : (b.kinds iters).length ≤ maxPhaseNumber

theorem kindsOf_threadCalls {b : Instance K} {iters : Nat} (hiters : iters ≠ 0) (hkeeps : b.Keeps iters)
    (t : Fin b.threads) : kindsOf (threadCalls b iters t) = b.kinds iters := by
  have hclosing : kindsOf (b.closing iters t) = [] := rfl
  rw [threadCalls_eq b hiters, kindsOf_append, hclosing, List.append_nil, hkeeps.alike t t.isLt]

theorem countP_threadCalls {b : Instance K} {iters : Nat} (hiters : iters ≠ 0) (hkeeps : b.Keeps iters)
    (t : Fin b.threads) : (threadCalls b iters t).countP Call.throughBarrier = (b.kinds iters).length := by
  rw [countP_throughBarrier, kindsOf_threadCalls hiters hkeeps]

private theorem eq_nil_of_append_cons {α : Type} {before done rest : List α} {x : α} (hx : x ∉ before)
    (h : before ++ [x] = done ++ x :: rest) : rest = [] := by
  rcases List.eq_nil_or_concat rest with rfl | ⟨init, last, rfl⟩
  · rfl
  · have hsplit : before ++ [x] = (done ++ x :: init) ++ [last] := by simpa using h
    have hbefore : before = done ++ x :: init := (List.append_inj' hsplit rfl).1
    exact absurd (hbefore ▸ by simp : x ∈ before) hx

theorem ofFunction_ran {b : Instance K} {iters thread_id : Nat} {call : Call K}
    (h : call ∈ (b.ran iters thread_id).1) : call.ofFunction = true := ofFunction_run _ _ call h

/-- A thread finalizes once, at the end. -/
theorem threadCalls_finalize (b : Instance K) {iters : Nat} (hiters : iters ≠ 0) (t : Fin b.threads) :
    ∃ before, threadCalls b iters t = before ++ [.finalize] ∧ Call.finalize ∉ before := by
  refine ⟨(b.ran iters t).1 ++ (b.closing iters t).take 2, ?_, ?_⟩
  · rw [threadCalls_eq b hiters, List.append_assoc]
    rfl
  · rw [List.mem_append, not_or]
    refine ⟨fun hmem => ?_, by simp [Instance.closing]⟩
    have hfalse : Call.finalize.ofFunction (K := K) = true := ofFunction_ran hmem
    cases hfalse

theorem rest_of_finalize {b : Instance K} {iters : Nat} (hiters : iters ≠ 0) {t : Fin b.threads}
    {done rest : List (Call K)} (h : threadCalls b iters t = done ++ .finalize :: rest) : rest = [] := by
  obtain ⟨before, hbefore, hnot⟩ := threadCalls_finalize b hiters t
  exact eq_nil_of_append_cons hnot (hbefore.symm.trans h)

/-- The `CHECK` behind the function passes. -/
theorem check_mem {b : Instance K} {iters : Nat} {passed : Bool} {failed : CheckFailed} (hiters : iters ≠ 0)
    (hkeeps : b.Keeps iters) {t : Fin b.threads} (h : .check passed failed ∈ threadCalls b iters t) :
    passed = true := by
  rw [threadCalls_eq b hiters, List.mem_append] at h
  rcases h with hmem | hmem
  · cases ofFunction_ran hmem
  · simp only [Instance.closing, List.mem_cons, Call.check.injEq, List.not_mem_nil, or_false, reduceCtorEq] at hmem
    rw [hmem.1, beq_iff_eq]
    exact hkeeps.returns t t.isLt

/-! ### What a phase finds -/

/-- After `k` barriers the timer is as the first `k` calls through it have left it; the notification comes
with the last `Finalize`, when all barriers are behind. -/
structure InPhase (b : Instance K) (iters k : Nat) (s : Shared K) : Prop where
  running : timed false ((b.kinds iters).take k) = some s.timer.running_
  notified : s.notified_yet_ = true ↔ b.threads ≤ s.timer.num_finalized_
  late : s.notified_yet_ = true → k = (b.kinds iters).length

/-- The kinds split where a thread stands. -/
private theorem kinds_split {b : Instance K} {iters : Nat} (hiters : iters ≠ 0) (hkeeps : b.Keeps iters)
    {t : Fin b.threads} {done rest : List (Call K)} {call : Call K} {kind : Kind}
    (h : threadCalls b iters t = done ++ call :: rest) (hkind : call.kind = some kind) :
    (b.kinds iters).take (done.countP Call.throughBarrier) = kindsOf done ∧
      (b.kinds iters).take (done.countP Call.throughBarrier + 1) = kindsOf done ++ [kind] ∧
      done.countP Call.throughBarrier < (b.kinds iters).length := by
  have hkinds : b.kinds iters = kindsOf done ++ kind :: kindsOf rest := by
    rw [← kindsOf_threadCalls hiters hkeeps t, h, kindsOf_append]
    simp [kindsOf, hkind]
  rw [countP_throughBarrier, hkinds]
  refine ⟨by simp, ?_, by simp⟩
  rw [List.take_append]
  simp

/-- The timer accepts the next call of the script. -/
private theorem timed_next {b : Instance K} {iters : Nat} (hkeeps : b.Keeps iters)
    {running : Bool} {before : List Kind} {kind : Kind} {k : Nat}
    (hnext : (b.kinds iters).take (k + 1) = before ++ [kind])
    (hrunning : timed false before = some running) :
    ∃ running', timed running [kind] = some running' ∧
      timed false ((b.kinds iters).take (k + 1)) = some running' := by
  have hall : timed false ((b.kinds iters).take (k + 1) ++ (b.kinds iters).drop (k + 1)) = some false := by
    rw [List.take_append_drop]
    exact hkeeps.timed
  rw [timed_append] at hall
  obtain ⟨running', hrunning', -⟩ := Option.bind_eq_some_iff.mp hall
  refine ⟨running', ?_, hrunning'⟩
  rw [hnext, timed_append, hrunning] at hrunning'
  exact hrunning'

section Rule

variable [AddCommGroup K] {clocks : Clocks K}

/-- All barriers are behind the call of `Finalize`, and the timer is stopped. -/
private theorem InPhase.finalize {b : Instance K} {iters : Nat} (hiters : iters ≠ 0) (hkeeps : b.Keeps iters)
    {t : Fin b.threads} {done rest : List (Call K)} (hscript : threadCalls b iters t = done ++ .finalize :: rest)
    {s : Shared K} (h : InPhase b iters (done.countP Call.throughBarrier) s) (n : Nat) :
    ∃ s', effect b.threads clocks .finalize n s = .ok s' ∧
      InPhase b iters (done.countP Call.throughBarrier) s' := by
  have hlast : done.countP Call.throughBarrier = (b.kinds iters).length := by
    obtain rfl := rest_of_finalize hiters hscript
    have hcount := countP_threadCalls hiters hkeeps t
    rw [hscript, List.countP_append] at hcount
    simpa [Call.throughBarrier, Call.kind] using hcount
  have hstopped : s.timer.running_ = false := by
    have hrunning := h.running
    rw [hlast, List.take_length, hkeeps.timed] at hrunning
    exact (Option.some.inj hrunning).symm
  by_cases hall : s.timer.num_finalized_ + 1 = b.threads
  · exact ⟨_, effect_finalize_last hall hstopped, h.running, by simp [hall], fun _ => hlast⟩
  · refine ⟨_, effect_finalize hall, h.running, ?_, h.late⟩
    simp only [h.notified]
    omega

omit [AddCommGroup K] in
/-- A barrier is never the last thing: whoever comes to it finds that nobody is notified yet. -/
private theorem InPhase.passed {b : Instance K} {iters k : Nat} {s s' : Shared K} {running' : Bool}
    (h : InPhase b iters k s) (hlt : k < (b.kinds iters).length)
    (hrunning : timed false ((b.kinds iters).take (k + 1)) = some running') (hrun : s'.timer.running_ = running')
    (hnum : s'.timer.num_finalized_ = s.timer.num_finalized_) (hyet : s'.notified_yet_ = s.notified_yet_) :
    InPhase b iters (k + 1) s' := by
  refine ⟨hrun ▸ hrunning, by rw [hnum, hyet, h.notified], fun hnot => ?_⟩
  exact absurd (h.late (hyet ▸ hnot)) hlt.ne

theorem inPhase_rule {b : Instance K} {iters : Nat} (hiters : iters ≠ 0) (hkeeps : b.Keeps iters) :
    PhaseRule (effect b.threads clocks) maxPhaseNumber Call.throughBarrier (threadCalls b iters)
      (fun k _ s => InPhase b iters k s) where
  few t := (countP_threadCalls hiters hkeeps t).trans_le hkeeps.few
  later k n s h := h
  free t done call rest hscript hfree n s h := by
    cases call with
    | startTimer byKeepRunning => cases hfree
    | stopTimer byKeepRunning => cases hfree
    | setIterationTime seconds => cases hfree
    | work => exact ⟨s, rfl, h⟩
    | check passed failed =>
      have hmem : .check passed failed ∈ threadCalls b iters t := by simp [hscript]
      obtain rfl := check_mem hiters hkeeps hmem
      exact ⟨s, rfl, h⟩
    | addStats bytes items => exact ⟨_, rfl, h.running, h.notified, h.late⟩
    | finalize => exact h.finalize hiters hkeeps hscript n
  arrive t done call rest hscript hsync n s h := by
    obtain ⟨kind, hkind⟩ := Option.isSome_iff_exists.mp hsync
    obtain ⟨htake, hnext, hlt⟩ := kinds_split hiters hkeeps hscript hkind
    obtain ⟨running', hstep, hrunning'⟩ := timed_next hkeeps hnext (htake ▸ h.running)
    cases call with
    | startTimer byKeepRunning =>
      obtain rfl := Option.some.inj hkind
      cases hrun : s.timer.running_ with
      | true => simp [timed, hrun] at hstep
      | false =>
        simp only [timed, hrun, Bool.false_eq_true, if_false, Option.some.injEq] at hstep
        exact ⟨_, effect_startTimer byKeepRunning hrun, h.passed hlt hrunning' hstep rfl rfl⟩
    | stopTimer byKeepRunning =>
      obtain rfl := Option.some.inj hkind
      cases hrun : s.timer.running_ with
      | false => simp [timed, hrun] at hstep
      | true =>
        simp only [timed, hrun, if_true, Option.some.injEq] at hstep
        exact ⟨_, effect_stopTimer byKeepRunning hrun, h.passed hlt hrunning' hstep rfl rfl⟩
    | setIterationTime seconds =>
      obtain rfl := Option.some.inj hkind
      simp only [timed, Option.some.injEq] at hstep
      exact ⟨_, rfl, h.passed hlt hrunning' hstep rfl rfl⟩
    | work => cases hsync
    | check passed failed => cases hsync
    | addStats bytes items => cases hsync
    | finalize => cases hsync

theorem inPhase_initial {b : Instance K} (hthreads : 0 < b.threads) (iters : Nat) :
    InPhase b iters 0 (Shared.initial : Shared K) :=
  ⟨rfl, by simp [Shared.initial, hthreads.ne'], by simp [Shared.initial]⟩

end Rule

/-! ### What the timer has measured -/

section Measured

variable [Field K] [LinearOrder K] [IsStrictOrderedRing K]

/-- The time used is that of slices that lie apart between the first reading and the present one. -/
structure Slices (clock : Nat → K) (running : Bool) (start used : K) (n : Nat) : Prop where
  nonneg : 0 ≤ used
  started : running = true → start ≤ clock n
  within : used ≤ (if running then start else clock n) - clock 0

variable {clock : Nat → K} {running : Bool} {start used : K} {n : Nat}

theorem Slices.later (hclock : Monotone clock) (h : Slices clock running start used n) :
    Slices clock running start used (n + 1) where
  nonneg := h.nonneg
  started hrun := (h.started hrun).trans (hclock n.le_succ)
  within := by
    have hnext := hclock n.le_succ
    have hwithin := h.within
    cases running with
    | true => exact hwithin
    | false =>
      simp only [Bool.false_eq_true, if_false] at hwithin ⊢
      linarith

omit [IsStrictOrderedRing K] in
theorem Slices.begin (hclock : Monotone clock) (h : Slices clock false start used n) :
    Slices clock true (clock n) used (n + 1) where
  nonneg := h.nonneg
  started _ := hclock n.le_succ
  within := by simpa using h.within

theorem Slices.end (hclock : Monotone clock) (h : Slices clock true start used n) :
    Slices clock false start (used + (clock n - start)) (n + 1) where
  nonneg := add_nonneg h.nonneg (sub_nonneg.mpr (h.started rfl))
  started hrun := by cases hrun
  within := by
    have hnext := hclock n.le_succ
    have hwithin := h.within
    simp only [Bool.false_eq_true, if_false, if_true] at hwithin ⊢
    linarith

/-- `lo` and `hi` bound what the threads pass to `SetIterationTime`. -/
structure Measured (b : Instance K) (iters : Nat) (clocks : Clocks K) (lo hi : K) (k n : Nat)
    (s : Shared K) : Prop where
  real : Slices clocks.Now s.timer.running_ s.timer.start_real_time_ s.timer.real_time_used_ n
  cpu : Slices clocks.cpu s.timer.running_ s.timer.start_cpu_time_ s.timer.cpu_time_used_ n
  manual_ge : ((b.kinds iters).take k).count .set * lo ≤ s.timer.manual_time_used_
  manual_le : s.timer.manual_time_used_ ≤ ((b.kinds iters).take k).count .set * hi

omit [Field K] [IsStrictOrderedRing K] in
private theorem setIterationTime_mem {b : Instance K} {iters : Nat} {seconds lo hi : K} (hiters : iters ≠ 0)
    (hseconds : ∀ t < b.threads, ∀ seconds, .setIterationTime seconds ∈ (b.ran iters t).1 →
      lo ≤ seconds ∧ seconds ≤ hi)
    {t : Fin b.threads} (h : .setIterationTime seconds ∈ threadCalls b iters t) :
    lo ≤ seconds ∧ seconds ≤ hi := by
  rw [threadCalls_eq b hiters, List.mem_append] at h
  rcases h with hmem | hmem
  · exact hseconds t t.isLt seconds hmem
  · simp [Instance.closing] at hmem

variable {clocks : Clocks K} {b : Instance K} {iters : Nat} {lo hi : K} {k : Nat} {s s' : Shared K}

theorem Measured.later (hNow : Monotone clocks.Now) (hcpu : Monotone clocks.cpu)
    (h : Measured b iters clocks lo hi k n s) : Measured b iters clocks lo hi k (n + 1) s :=
  ⟨h.real.later hNow, h.cpu.later hcpu, h.manual_ge, h.manual_le⟩

omit [IsStrictOrderedRing K] in
/-- A call that does not go through the barrier leaves the times alone. -/
private theorem measured_free {call : Call K} (hkind : call.kind = none)
    (hact : effect b.threads clocks call n s = .ok s') (h : Measured b iters clocks lo hi k n s) :
    Measured b iters clocks lo hi k n s' := by
  cases call with
  | startTimer byKeepRunning => cases hkind
  | stopTimer byKeepRunning => cases hkind
  | setIterationTime seconds => cases hkind
  | work =>
    cases hact
    exact h
  | check passed failed =>
    simp only [effect] at hact
    split at hact <;> cases hact
    exact h
  | addStats bytes items =>
    cases hact
    exact ⟨h.real, h.cpu, h.manual_ge, h.manual_le⟩
  | finalize =>
    simp only [effect] at hact
    split at hact
    · split at hact <;> cases hact
      exact ⟨h.real, h.cpu, h.manual_ge, h.manual_le⟩
    · cases hact
      exact ⟨h.real, h.cpu, h.manual_ge, h.manual_le⟩

/-- A call through the barrier begins a slice, ends one or adds seconds of its own. -/
private theorem measured_sync (hNow : Monotone clocks.Now) (hcpu : Monotone clocks.cpu) {call : Call K}
    {kind : Kind} (hkind : call.kind = some kind)
    (hcount : ((b.kinds iters).take (k + 1)).count .set
      = ((b.kinds iters).take k).count .set + [kind].count .set)
    (hseconds : ∀ seconds, call = .setIterationTime seconds → lo ≤ seconds ∧ seconds ≤ hi)
    (hact : effect b.threads clocks call n s = .ok s') (h : Measured b iters clocks lo hi k n s) :
    Measured b iters clocks lo hi (k + 1) (n + 1) s' := by
  have hge := h.manual_ge
  have hle := h.manual_le
  have hreal := h.real
  have hcpuSlices := h.cpu
  cases call with
  | work => cases hkind
  | check passed failed => cases hkind
  | addStats bytes items => cases hkind
  | finalize => cases hkind
  | startTimer byKeepRunning =>
    obtain rfl := Option.some.inj hkind
    simp only [effect] at hact
    split at hact
    · cases hact
    · rename_i hrun
      cases hact
      rw [Bool.eq_false_iff.mpr hrun] at hreal hcpuSlices
      exact ⟨hreal.begin hNow, hcpuSlices.begin hcpu, by simpa [hcount] using hge,
        by simpa [hcount] using hle⟩
  | stopTimer byKeepRunning =>
    obtain rfl := Option.some.inj hkind
    simp only [effect] at hact
    split at hact
    · rename_i hrun
      cases hact
      rw [hrun] at hreal hcpuSlices
      exact ⟨hreal.end hNow, hcpuSlices.end hcpu, by simpa [hcount, TimerManager.internalStop] using hge,
        by simpa [hcount, TimerManager.internalStop] using hle⟩
    · cases hact
  | setIterationTime seconds =>
    obtain rfl := Option.some.inj hkind
    obtain ⟨hlo, hhi⟩ := hseconds seconds rfl
    cases hact
    refine ⟨hreal.later hNow, hcpuSlices.later hcpu, ?_, ?_⟩
    · rw [hcount, List.count_singleton_self, Nat.cast_succ]
      linarith
    · rw [hcount, List.count_singleton_self, Nat.cast_succ]
      linarith

theorem measured_rule (hiters : iters ≠ 0) (hkeeps : b.Keeps iters) (hNow : Monotone clocks.Now)
    (hcpu : Monotone clocks.cpu)
    (hseconds : ∀ t < b.threads, ∀ seconds, .setIterationTime seconds ∈ (b.ran iters t).1 →
      lo ≤ seconds ∧ seconds ≤ hi) :
    PhaseRule (effect b.threads clocks) maxPhaseNumber Call.throughBarrier (threadCalls b iters)
      (fun k n s => InPhase b iters k s ∧ Measured b iters clocks lo hi k n s) := by
  refine (inPhase_rule hiters hkeeps).and (fun k n s h => h.later hNow hcpu) ?_
  intro t done call rest hscript n s s' hact _ h
  cases hkind : call.kind with
  | none =>
    have hfree : call.throughBarrier = false := by simp [Call.throughBarrier, hkind]
    simp only [hfree, Bool.false_eq_true, if_false]
    exact (measured_free hkind hact h).later hNow hcpu
  | some kind =>
    obtain ⟨htake, hnext, -⟩ := kinds_split hiters hkeeps hscript hkind
    have hsync : call.throughBarrier = true := by simp [Call.throughBarrier, hkind]
    simp only [hsync, if_true]
    refine measured_sync hNow hcpu hkind ?_ ?_ hact h
    · rw [hnext, htake, List.count_append]
    · rintro seconds rfl
      exact setIterationTime_mem hiters hseconds (hscript ▸ by simp : _ ∈ threadCalls b iters t)

omit [IsStrictOrderedRing K] in
theorem measured_initial (b : Instance K) (iters : Nat) (clocks : Clocks K) (lo hi : K) :
    Measured b iters clocks lo hi 0 0 (.initial : Shared K) := by
  have hslices : ∀ clock : Nat → K, Slices clock false 0 0 0 := fun clock =>
    { nonneg := le_rfl, started := nofun, within := by simp }
  exact ⟨hslices _, hslices _, by simp [Shared.initial], by simp [Shared.initial]⟩

end Measured

/-! ### Loops over `KeepRunning` -/

def Program.calls (userCalls : List (UserCall K)) (next : Program K) : Program K := userCalls.foldr .call next

/-- `while (state.KeepRunning()) body`, with `left` turns left, of which the next is the `k`-th. -/
def whileKeepRunning (body : Nat → List (UserCall K)) (after : Program K) : Nat → Nat → Program K
  | 0, _ => .keepRunning fun _ => after
  | left + 1, k => .keepRunning fun running =>
    if running then .calls (body k) (whileKeepRunning body after left (k + 1)) else after

def UserCall.kind : UserCall K → Option Kind
  | .pauseTiming => some (.stop false)
  | .resumeTiming => some (.start false)
  | .setIterationTime _ => some .set
  | _ => none

theorem calls_run (userCalls : List (UserCall K)) (next : Program K) (st : State) :
    ∃ st' : State, st'.started_ = st.started_ ∧ st'.total_iterations_ = st.total_iterations_ ∧
      st'.max_iterations = st.max_iterations ∧ ((Program.calls userCalls next).run st).2 = (next.run st').2 ∧
      kindsOf ((Program.calls userCalls next).run st).1 =
        userCalls.filterMap UserCall.kind ++ kindsOf (next.run st').1 := by
  induction userCalls generalizing st with
  | nil => exact ⟨st, rfl, rfl, rfl, rfl, rfl⟩
  | cons userCall userCalls ih =>
    obtain ⟨st', hstarted, htotal, hmax, hstate, hkinds⟩ := ih (userCall.run st).2
    have hcons : (Program.calls (userCall :: userCalls) next).run st =
        ((userCall.run st).1 ++ ((Program.calls userCalls next).run (userCall.run st).2).1,
          ((Program.calls userCalls next).run (userCall.run st).2).2) := rfl
    refine ⟨st', hstarted.trans ?_, htotal.trans ?_, hmax.trans ?_, hstate, ?_⟩
    · cases userCall <;> rfl
    · cases userCall <;> rfl
    · cases userCall <;> rfl
    · have hfirst : kindsOf (userCall.run st).1 = userCall.kind.toList := by
        cases userCall <;> rfl
      rw [hcons, kindsOf_append, hfirst, hkinds]
      cases hkind : userCall.kind <;> simp [hkind]

theorem whileKeepRunning_run (body : Nat → List (UserCall K)) (after : Program K) (left k : Nat) (st : State)
    (hleft : st.max_iterations = st.total_iterations_ + left) :
    ∃ st' : State, st'.total_iterations_ = st'.max_iterations ∧
      ((whileKeepRunning body after left k).run st).2 = (after.run st').2 ∧
      kindsOf ((whileKeepRunning body after left k).run st).1 =
        (if st.started_ then [] else [.start true]) ++
          (List.range' k left).flatMap (fun j => (body j).filterMap UserCall.kind) ++
          .stop true :: kindsOf (after.run st').1 := by
  have hstart : kindsOf (if st.started_ then ([] : List (Call K)) else [.startTimer true]) =
      if st.started_ then [] else [.start true] := by
    split <;> rfl
  induction left generalizing k st with
  | zero =>
    refine ⟨{ st with started_ := true, total_iterations_ := st.max_iterations }, rfl, ?_, ?_⟩
    · rw [whileKeepRunning, Program.run, keepRunning_of_le (by omega)]
    · rw [whileKeepRunning, Program.run, keepRunning_of_le (by omega)]
      simp only [kindsOf_append, hstart, List.range'_zero, List.flatMap_nil, List.append_nil, List.append_assoc]
      rfl
  | succ left ih =>
    obtain ⟨st₁, hstarted, htotal, hmax, hstate, hkinds⟩ := calls_run (body k)
      (whileKeepRunning body after left (k + 1))
      { st with started_ := true, total_iterations_ := st.total_iterations_ + 1 }
    simp only at htotal hmax
    obtain ⟨st', hdone, hstate', hkinds'⟩ := ih (k + 1) st₁ (by omega) (by split <;> rfl)
    refine ⟨st', hdone, ?_, ?_⟩
    · rw [whileKeepRunning, Program.run, keepRunning_of_lt (by omega)]
      exact hstate.trans hstate'
    · rw [whileKeepRunning, Program.run, keepRunning_of_lt (by omega)]
      simp only [if_true, kindsOf_append, hstart, hkinds, hkinds', hstarted, List.range'_succ, List.flatMap_cons,
        List.nil_append, List.append_assoc]

/-- A benchmark's function that is a loop, and does not use the timer behind it. -/
def loop (body : State → Nat → List (UserCall K)) (after : State → List (UserCall K)) : Function K :=
  fun st => whileKeepRunning (body st) (.calls (after st) .done) st.max_iterations 1

/-- What a loop calls in a thread, where each turn calls as in every thread. -/
theorem ran_loop {body : State → Nat → List (UserCall K)} {after : State → List (UserCall K)} {b : Instance K}
    (hb : b.benchmark = loop body after)
    (halike : ∀ st thread_index k, (body { st with thread_index := thread_index } k).filterMap UserCall.kind =
      (body st k).filterMap UserCall.kind)
    (hafter : ∀ st, (after st).filterMap UserCall.kind = []) (iters t : Nat) :
    (b.ran iters t).2.total_iterations_ = (b.ran iters t).2.max_iterations ∧
      kindsOf (b.ran iters t).1 = .start true :: (List.range' 1 iters).flatMap
        (fun k => (body (b.state iters 0) k).filterMap UserCall.kind) ++ [.stop true] := by
  obtain ⟨st₁, hdone, hstate, hkinds⟩ := whileKeepRunning_run (body (b.state iters t))
    (.calls (after (b.state iters t)) .done) iters 1 (b.state iters t) (Nat.zero_add iters).symm
  obtain ⟨st₂, -, htotal, hmax, hstate', hkinds'⟩ := calls_run (after (b.state iters t)) .done st₁
  have hrun : b.ran iters t =
      (whileKeepRunning (body (b.state iters t)) (.calls (after (b.state iters t)) .done) iters 1).run
        (b.state iters t) := by
    rw [Instance.ran, hb]
    rfl
  constructor
  · rw [hrun, hstate, hstate']
    exact (htotal.trans hdone).trans hmax.symm
  · have hbody : (fun k => (body (b.state iters t) k).filterMap UserCall.kind) =
        fun k => (body (b.state iters 0) k).filterMap UserCall.kind := by
      funext k
      exact halike (b.state iters 0) t k
    have hnone : kindsOf ((Program.done : Program K).run st₂).1 = [] := rfl
    rw [hrun, hkinds, hkinds', hafter, hbody, hnone]
    rfl

/-- A loop keeps the contract where each turn stops and starts the timer in turn and as every thread does, with at
most `most` calls of the timer. -/
theorem loop_keeps {body : State → Nat → List (UserCall K)} {after : State → List (UserCall K)} {b : Instance K}
    (hb : b.benchmark = loop body after) {iters most : Nat}
    (htimed : ∀ st k, timed true ((body st k).filterMap UserCall.kind) = some true)
    (halike : ∀ st thread_index k, (body { st with thread_index := thread_index } k).filterMap UserCall.kind =
      (body st k).filterMap UserCall.kind)
    (hafter : ∀ st, (after st).filterMap UserCall.kind = [])
    (hmost : ∀ st k, ((body st k).filterMap UserCall.kind).length ≤ most)
    (hfew : iters * most + 2 ≤ maxPhaseNumber) : b.Keeps iters := by
  have hran := ran_loop hb halike hafter iters
  have hkinds := (hran 0).2
  refine ⟨fun t _ => (hran t).1, ?_, fun t _ => (hran t).2.trans hkinds.symm, ?_⟩
  · rw [Instance.kinds, hkinds, List.cons_append]
    simp only [timed, Bool.false_eq_true, if_false]
    rw [timed_append, timed_flatMap fun k => htimed _ k]
    rfl
  · have hsum := List.sum_le_card_nsmul ((List.range' 1 iters).map fun k =>
      ((body (b.state iters 0) k).filterMap UserCall.kind).length) most (by
        intro length hlength
        obtain ⟨k, -, rfl⟩ := List.mem_map.mp hlength
        exact hmost _ k)
    rw [List.length_map, List.length_range', smul_eq_mul] at hsum
    rw [Instance.kinds, hkinds, List.length_append, List.length_cons, List.length_flatMap, List.length_singleton]
    omega

/-! ### Runs -/

/-- `c` can be come to in a try of `iters` iterations, under some schedule of the threads. -/
def Reached [AddCommGroup K] (b : Instance K) (iters : Nat) (clocks : Clocks K) (spurious : Bool)
    (c : Config (Fin b.threads) (Call K) (Shared K) CheckFailed) : Prop :=
  Steps (effect b.threads clocks) maxPhaseNumber Call.throughBarrier spurious
    (.start (threadCalls b iters) .initial) c

/-- Each iteration prepares with the timer stopped, and reports the second it takes. -/
def preparing : Function ℚ :=
  loop (fun _ _ => [.pauseTiming, .work, .resumeTiming, .work, .setIterationTime 1]) fun st =>
    [.setBytesProcessed (10 * (st.thread_index + 1)), .setItemsProcessed st.max_iterations]

def preparingTwice : Instance ℚ := ⟨preparing, false, 0, false, 0, .kNanosecond, false, true, 0, 2⟩

theorem preparing_keeps {b : Instance ℚ} (hb : b.benchmark = preparing) {iters : Nat} (hiters : iters ≤ 2 ^ 29) :
    b.Keeps iters := by
  refine loop_keeps hb (fun _ _ => rfl) (fun _ _ _ => rfl) (fun _ => rfl) (fun _ _ => le_refl 3) ?_
  rw [maxPhaseNumber]
  omega

def preparingTwice.first : Fin preparingTwice.threads := ⟨0, by decide⟩

def preparingTwice.second : Fin preparingTwice.threads := ⟨1, by decide⟩

def evenClocks : Clocks ℚ := ⟨fun n => n, fun n => n, fun _ => 0⟩

theorem evenClocks_Now : Monotone evenClocks.Now := fun _ _ h => by simpa [evenClocks] using h

theorem evenClocks_cpu : Monotone evenClocks.cpu := fun _ _ h => by
  simpa [evenClocks, Clocks.cpu] using h

/-- The first thread has come to its first `KeepRunning`, and then the second. -/
def preparingBegun : Config (Fin preparingTwice.threads) (Call ℚ) (Shared ℚ) CheckFailed :=
  ((Config.start (threadCalls preparingTwice 3) .initial).arrive (effect 2 evenClocks) maxPhaseNumber
    preparingTwice.first (.startTimer true) (threadCalls preparingTwice 3 preparingTwice.first).tail).arrive
    (effect 2 evenClocks) maxPhaseNumber preparingTwice.second (.startTimer true)
    (threadCalls preparingTwice 3 preparingTwice.second).tail

/-- The second thread has also notified the first and goes on. -/
def preparingNotified : Config (Fin preparingTwice.threads) (Call ℚ) (Shared ℚ) CheckFailed :=
  { preparingBegun with
    place := Function.update (fun u => (preparingBegun.place u).notified preparingBegun.phase)
      preparingTwice.second .running
    steps := preparingBegun.steps + 1 }

theorem preparingNotified_reached : Reached preparingTwice 3 evenClocks true preparingNotified := by
  have hfirst : Reached preparingTwice 3 evenClocks true _ :=
    .single (.arrive preparingTwice.first (.startTimer true) _ rfl rfl rfl rfl)
  have hbegun : Reached preparingTwice 3 evenClocks true preparingBegun :=
    hfirst.tail (.arrive preparingTwice.second (Call.startTimer true) _ rfl rfl rfl rfl)
  exact hbegun.tail (.notify preparingTwice.second rfl rfl)

section Schedules

variable [AddCommGroup K] {b : Instance K} {iters : Nat} {clocks : Clocks K} {spurious : Bool}
  {c : Config (Fin b.threads) (Call K) (Shared K) CheckFailed}

theorem Reached.inPhase (hrun : Reached b iters clocks spurious c) (hthreads : 0 < b.threads)
    (hiters : iters ≠ 0) (hkeeps : b.Keeps iters) : Holds (fun k _ s => InPhase b iters k s) c := by
  have : Nonempty (Fin b.threads) := ⟨⟨0, hthreads⟩⟩
  exact Steps.holds (inPhase_rule hiters hkeeps) (inPhase_initial hthreads iters) hrun

theorem Reached.lockstep (hrun : Reached b iters clocks spurious c) (hthreads : 0 < b.threads) :
    Lockstep Call.throughBarrier (threadCalls b iters) c := by
  have : Nonempty (Fin b.threads) := ⟨⟨0, hthreads⟩⟩
  exact Steps.lockstep hrun

/-- **No `CHECK` fails**, and the phase number does not overflow, whatever the schedule, where the benchmark keeps
its contract. -/
theorem threads_neverFail (hthreads : 0 < b.threads) (hiters : iters ≠ 0) (hkeeps : b.Keeps iters)
    (hrun : Reached b iters clocks spurious c) : c.failure = none :=
  (hrun.inPhase hthreads hiters hkeeps).good

theorem threads_neverFail_two : preparingNotified.failure = none ∧ preparingNotified.phase = 1 ∧
    ∃ c, Reached preparingTwice 3 evenClocks true c ∧ c.Done ∧ c.failure = none := by
  have hkeeps : preparingTwice.Keeps 3 := preparing_keeps rfl (by decide)
  have : Nonempty (Fin preparingTwice.threads) := ⟨preparingTwice.first⟩
  have hsame : ∀ t u, (threadCalls preparingTwice 3 t).countP Call.throughBarrier =
      (threadCalls preparingTwice 3 u).countP Call.throughBarrier := fun t u => by
    rw [countP_threadCalls (by decide) hkeeps, countP_threadCalls (by decide) hkeeps]
  obtain ⟨c, hrest, hdone⟩ := Steps.completes (inPhase_rule (by decide) hkeeps) hsame
    (inPhase_initial (by decide) 3) preparingNotified_reached
  have hrun : Reached preparingTwice 3 evenClocks true c := preparingNotified_reached.trans hrest
  exact ⟨threads_neverFail (by decide) (by decide) hkeeps preparingNotified_reached, rfl, c, hrun, hdone,
    threads_neverFail (by decide) (by decide) hkeeps hrun⟩

private theorem suffix_of_append {α : Type} {done pending front tail : List α} {x : α} (hx : x ∉ pending)
    (h : front ++ [x] ++ tail = done ++ pending) : pending <:+ tail := by
  rcases List.append_eq_append_iff.mp h with ⟨extra, -, htail⟩ | ⟨extra, hfront, hpending⟩
  · exact ⟨extra, htail.symm⟩
  · rcases List.eq_nil_or_concat extra with rfl | ⟨init, last, rfl⟩
    · simp [hpending]
    · have hlast : front ++ [x] = (done ++ init) ++ [last] := by simpa using hfront
      obtain rfl : x = last := by simpa using (List.append_inj' hlast rfl).2
      exact absurd (by simp [hpending]) hx

omit [AddCommGroup K] in
/-- What is left of a script behind a number of barriers. -/
private theorem kindsOf_pending (hiters : iters ≠ 0) (hkeeps : b.Keeps iters) {t : Fin b.threads}
    {done : List (Call K)} (h : threadCalls b iters t = done ++ c.pending t) :
    kindsOf (c.pending t) = (b.kinds iters).drop (done.countP Call.throughBarrier) := by
  rw [← kindsOf_threadCalls hiters hkeeps t, h, kindsOf_append, countP_throughBarrier, List.drop_left]

omit [AddCommGroup K] in
private theorem startTimer_mem {calls : List (Call K)} {byKeepRunning : Bool} :
    .startTimer byKeepRunning ∈ calls ↔ .start byKeepRunning ∈ kindsOf calls := by
  rw [kindsOf, List.mem_filterMap]
  constructor
  · exact fun h => ⟨_, h, rfl⟩
  · rintro ⟨call, hcall, hkind⟩
    cases call <;> cases hkind
    exact hcall

omit [AddCommGroup K] in
private theorem stopTimer_mem {calls : List (Call K)} {byKeepRunning : Bool} :
    .stopTimer byKeepRunning ∈ calls ↔ .stop byKeepRunning ∈ kindsOf calls := by
  rw [kindsOf, List.mem_filterMap]
  constructor
  · exact fun h => ⟨_, h, rfl⟩
  · rintro ⟨call, hcall, hkind⟩
    cases call <;> cases hkind
    exact hcall

/-- **The threads are in step.** Whatever calls of the timer a thread is past, every thread has come to: once a
thread is past its first `KeepRunning` all have called theirs, and once it is past those that stop the timer and
return false no thread has a loop before it. -/
theorem threads_inStep (hthreads : 0 < b.threads) (hiters : iters ≠ 0) (hkeeps : b.Keeps iters)
    (hrun : Reached b iters clocks spurious c) {t u : Fin b.threads} (hplace : c.place t = .running) :
    kindsOf (c.pending u) <:+ kindsOf (c.pending t) ∧
      (.startTimer true ∉ c.pending t → .startTimer true ∉ c.pending u) ∧
      (.stopTimer true ∉ c.pending t → .stopTimer true ∉ c.pending u) := by
  obtain ⟨done, ht, -⟩ := (hrun.lockstep hthreads).passed t
  obtain ⟨done', hu, -⟩ := (hrun.lockstep hthreads).passed u
  have hle := (hrun.lockstep hthreads).passed_le hplace ht hu
  have hsuffix : kindsOf (c.pending u) <:+ kindsOf (c.pending t) := by
    rw [kindsOf_pending hiters hkeeps ht, kindsOf_pending hiters hkeeps hu]
    exact List.drop_suffix_drop_left _ hle
  refine ⟨hsuffix, fun hstart hmem => hstart ?_, fun hstop hmem => hstop ?_⟩
  · exact startTimer_mem.mpr (hsuffix.subset (startTimer_mem.mp hmem))
  · exact stopTimer_mem.mpr (hsuffix.subset (stopTimer_mem.mp hmem))

/-- Where the second thread is past its first `KeepRunning`, the first is asleep in it. -/
theorem threads_inStep_two : preparingNotified.place preparingTwice.first = .waiting 0 true ∧
    .startTimer true ∉ preparingNotified.pending preparingTwice.first := by
  have hkeeps : preparingTwice.Keeps 3 := preparing_keeps rfl (by decide)
  have hpast : .startTimer true ∉ preparingNotified.pending preparingTwice.second := by
    rw [startTimer_mem]
    decide
  have hstep := threads_inStep (t := preparingTwice.second) (u := preparingTwice.first) (by decide) (by decide)
    hkeeps preparingNotified_reached rfl
  exact ⟨rfl, hstep.2.1 hpast⟩

/-! ### The end of a try -/

/-- What a call adds to the totals and to the count of finalized threads. -/
def Call.adds : Call K → BitVec 64 × BitVec 64 × Nat
  | .addStats bytes items => (bytes, items, 0)
  | .finalize => (0, 0, 1)
  | _ => 0

theorem effect_weighs (threads : Nat) (clocks : Clocks K) :
    Weighs (effect threads clocks) Call.throughBarrier
      (fun s => (s.total.bytes_processed, s.total.items_processed, s.timer.num_finalized_)) Call.adds where
  effect call n s s' hact := by
    cases call with
    | startTimer byKeepRunning =>
      simp only [effect] at hact
      split at hact <;> cases hact
      exact (add_zero _).symm
    | stopTimer byKeepRunning =>
      simp only [effect] at hact
      split at hact <;> cases hact
      exact (add_zero _).symm
    | setIterationTime seconds =>
      cases hact
      exact (add_zero _).symm
    | work =>
      cases hact
      exact (add_zero _).symm
    | check passed failed =>
      simp only [effect] at hact
      split at hact <;> cases hact
      exact (add_zero _).symm
    | addStats bytes items =>
      cases hact
      rfl
    | finalize =>
      simp only [effect] at hact
      split at hact
      · split at hact <;> cases hact
        simp [Call.adds]
      · cases hact
        simp [Call.adds]
  sync call hsync := by
    cases call <;> first | rfl | cases hsync

omit [AddCommGroup K] in
theorem adds_threadCalls (b : Instance K) {iters : Nat} (hiters : iters ≠ 0) (t : Fin b.threads) :
    ((threadCalls b iters t).map Call.adds).sum =
      ((b.ran iters t).2.bytes_processed_, (b.ran iters t).2.items_processed_, 1) := by
  have hfunction : ((b.ran iters t).1.map Call.adds).sum = 0 := by
    refine List.sum_eq_zero fun cost hcost => ?_
    obtain ⟨call, hcall, rfl⟩ := List.mem_map.mp hcost
    have hof := ofFunction_ran hcall
    cases call <;> first | rfl | cases hof
  rw [threadCalls_eq b hiters, List.map_append, List.sum_append, hfunction, zero_add]
  simp [Instance.closing, Call.adds]

/-- The sum of the threads' statistics, as `RunBenchmark` totals them. -/
def Instance.total (b : Instance K) (iters : Nat) : ThreadStats :=
  ⟨∑ t : Fin b.threads, (b.ran iters t).2.bytes_processed_, ∑ t : Fin b.threads, (b.ran iters t).2.items_processed_⟩

theorem Reached.conserves (hrun : Reached b iters clocks spurious c) (hiters : iters ≠ 0)
    (hgood : c.failure = none) :
    (c.data.total.bytes_processed, c.data.total.items_processed, c.data.timer.num_finalized_)
      + c.pendingCost Call.adds
      = ((b.total iters).bytes_processed, (b.total iters).items_processed, b.threads) := by
  have hconserved := Steps.conserves (effect_weighs b.threads clocks) hrun hgood
  rw [hconserved]
  simp only [Config.start, Config.pendingCost, adds_threadCalls b hiters, Shared.initial, Instance.total]
  refine Prod.ext ?_ (Prod.ext ?_ ?_)
  · simp [Prod.fst_sum]
  · simp [Prod.fst_sum, Prod.snd_sum]
  · simp [Prod.snd_sum]

theorem Reached.finished (hrun : Reached b iters clocks spurious c) (hthreads : 0 < b.threads)
    (hiters : iters ≠ 0) (hkeeps : b.Keeps iters) (hnotified : c.data.notified_yet_ = true)
    (t : Fin b.threads) : c.pending t = [] := by
  obtain ⟨hgood, hphase⟩ := hrun.inPhase hthreads hiters hkeeps
  have hconserved := congrArg (fun sums => sums.2.2) (hrun.conserves hiters hgood)
  simp only [Prod.snd_add] at hconserved
  have hall := hphase.notified.mp hnotified
  have hzero : (c.pendingCost Call.adds).2.2 = 0 := by omega
  simp only [Config.pendingCost, Prod.snd_sum, Finset.sum_eq_zero_iff, Finset.mem_univ, true_imp_iff]
    at hzero
  have hnone : Call.finalize ∉ c.pending t := by
    intro hmem
    obtain ⟨before, after, hsplit⟩ := List.append_of_mem hmem
    have hone := hzero t
    simp [hsplit, Call.adds] at hone
  obtain ⟨done, hscript, -⟩ := (hrun.lockstep hthreads).passed t
  obtain ⟨before, hbefore, -⟩ := threadCalls_finalize b hiters t
  have hsplit : before ++ [.finalize] ++ [] = done ++ c.pending t := by
    rw [List.append_nil, ← hbefore, hscript]
  exact List.suffix_nil.mp (suffix_of_append hnone hsplit)

theorem Reached.completes (hrun : Reached b iters clocks spurious c) (hthreads : 0 < b.threads)
    (hiters : iters ≠ 0) (hkeeps : b.Keeps iters) :
    ∃ c', Steps (effect b.threads clocks) maxPhaseNumber Call.throughBarrier spurious c c' ∧ c'.Done ∧
      c'.data.notified_yet_ = true := by
  have : Nonempty (Fin b.threads) := ⟨⟨0, hthreads⟩⟩
  have hsame : ∀ t u, (threadCalls b iters t).countP Call.throughBarrier
      = (threadCalls b iters u).countP Call.throughBarrier := fun t u => by
    rw [countP_threadCalls hiters hkeeps, countP_threadCalls hiters hkeeps]
  obtain ⟨c', hrest, hdone⟩ :=
    Steps.completes (inPhase_rule hiters hkeeps) hsame (inPhase_initial hthreads iters) hrun
  have hrun' : Reached b iters clocks spurious c' := hrun.trans hrest
  obtain ⟨hgood, hphase⟩ := hrun'.inPhase hthreads hiters hkeeps
  have hconserved := congrArg (fun sums => sums.2.2) (hrun'.conserves hiters hgood)
  have hzero : c'.pendingCost (Call.adds (K := K)) = 0 := by
    simp [Config.pendingCost, fun t => (hdone t).1]
  simp only [hzero, add_zero] at hconserved
  exact ⟨c', hrest, hdone, hphase.notified.mpr hconserved.ge⟩

/-- **A try ends.** Where the benchmark keeps its contract, every run can be continued until all threads are
through and `RunBenchmark` is notified, and no run is longer than the scripts allow. -/
theorem threads_complete (hthreads : 0 < b.threads) (hiters : iters ≠ 0) (hkeeps : b.Keeps iters)
    (hrun : Reached b iters clocks spurious c) :
    (∃ c', Steps (effect b.threads clocks) maxPhaseNumber Call.throughBarrier spurious c c' ∧ c'.Done ∧
      c'.data.notified_yet_ = true) ∧
      c.steps ≤ ∑ t, 2 * (threadCalls b iters t).length := by
  refine ⟨hrun.completes hthreads hiters hkeeps, ?_⟩
  have : Nonempty (Fin b.threads) := ⟨⟨0, hthreads⟩⟩
  have hsteps := Steps.steps_le (inPhase_rule hiters hkeeps) (inPhase_initial hthreads iters) hrun
  omega

theorem threads_complete_two : ∃ c, Steps (effect 2 evenClocks) maxPhaseNumber Call.throughBarrier true
    preparingNotified c ∧ c.Done ∧ c.data.notified_yet_ = true :=
  (threads_complete (by decide) (by decide) (preparing_keeps rfl (by decide)) preparingNotified_reached).1

end Schedules

section Readings

variable [Field K] [LinearOrder K] [IsStrictOrderedRing K] {b : Instance K} {iters : Nat} {clocks : Clocks K}
  {spurious : Bool} {c : Config (Fin b.threads) (Call K) (Shared K) CheckFailed}

/-- **What `RunBenchmark` reads when it is notified.** All threads are through, the timer is stopped, the
totals are the sums over the threads, the times used lie within the time elapsed, and the manual time is
that of one `SetIterationTime` for each round of them. -/
theorem threads_notified (hthreads : 0 < b.threads) (hiters : iters ≠ 0) (hkeeps : b.Keeps iters)
    (hNow : Monotone clocks.Now) (hcpu : Monotone clocks.cpu) {lo hi : K}
    (hseconds : ∀ t < b.threads, ∀ seconds, .setIterationTime seconds ∈ (b.ran iters t).1 →
      lo ≤ seconds ∧ seconds ≤ hi)
    (hrun : Reached b iters clocks spurious c) (hnotified : c.data.notified_yet_ = true) :
    (∀ t, c.pending t = []) ∧ c.data.timer.running_ = false ∧ c.data.total = b.total iters ∧
      c.data.timer.real_time_used_ ∈ Set.Icc 0 (clocks.Now c.steps - clocks.Now 0) ∧
      c.data.timer.cpu_time_used_ ∈ Set.Icc 0 (clocks.cpu c.steps - clocks.cpu 0) ∧
      c.data.timer.manual_time_used_
        ∈ Set.Icc ((b.kinds iters).count .set * lo) ((b.kinds iters).count .set * hi) := by
  have : Nonempty (Fin b.threads) := ⟨⟨0, hthreads⟩⟩
  have hfinished := hrun.finished hthreads hiters hkeeps hnotified
  obtain ⟨hgood, hphase, hmeasured⟩ :=
    Steps.holds (measured_rule hiters hkeeps hNow hcpu hseconds)
      ⟨inPhase_initial hthreads iters, measured_initial b iters clocks lo hi⟩ hrun
  have hlate := hphase.late hnotified
  have hrunning : c.data.timer.running_ = false := by
    have h := hphase.running
    rw [hlate, List.take_length, hkeeps.timed] at h
    exact (Option.some.inj h).symm
  have hreal := hmeasured.real
  have hcpuSlices := hmeasured.cpu
  have hge := hmeasured.manual_ge
  have hle := hmeasured.manual_le
  rw [hrunning] at hreal hcpuSlices
  rw [hlate, List.take_length] at hge hle
  have hconserved := hrun.conserves hiters hgood
  have hzero : c.pendingCost (Call.adds (K := K)) = 0 := by simp [Config.pendingCost, hfinished]
  rw [hzero, add_zero] at hconserved
  simp only [Prod.mk.injEq] at hconserved
  refine ⟨hfinished, hrunning, ?_, ⟨hreal.nonneg, by simpa using hreal.within⟩,
    ⟨hcpuSlices.nonneg, by simpa using hcpuSlices.within⟩, hge, hle⟩
  exact congrArg₂ ThreadStats.mk hconserved.1 hconserved.2.1

theorem threads_notified_two : ∃ c, Reached preparingTwice 3 evenClocks true c ∧
    c.data.total = ⟨30, 6⟩ ∧ c.data.timer.manual_time_used_ ∈ Set.Icc (3 : ℚ) 3 := by
  have hkeeps : preparingTwice.Keeps 3 := preparing_keeps rfl (by decide)
  obtain ⟨c, hrest, -, hnotified⟩ := preparingNotified_reached.completes (by decide) (by decide) hkeeps
  have hrun : Reached preparingTwice 3 evenClocks true c := preparingNotified_reached.trans hrest
  have hseconds : ∀ t < preparingTwice.threads, ∀ seconds,
      .setIterationTime seconds ∈ (preparingTwice.ran 3 t).1 → (1 : ℚ) ≤ seconds ∧ seconds ≤ 1 := by
    intro t _ seconds hmem
    have hone : seconds = 1 := by
      simpa [Instance.ran, preparingTwice, preparing, loop, Instance.state, whileKeepRunning, Program.calls,
        Program.run, State.keepRunning, UserCall.run] using hmem
    exact ⟨hone.ge, hone.le⟩
  obtain ⟨-, -, htotal, -, -, hmanual⟩ := threads_notified (by decide) (by decide) hkeeps
    evenClocks_Now evenClocks_cpu hseconds hrun hnotified
  have hcount : (preparingTwice.kinds 3).count .set = 3 := by decide
  refine ⟨c, hrun, htotal.trans (by decide), ?_⟩
  simpa [hcount] using hmanual

end Readings

end BenchmarkLibs.GoogleBenchmark

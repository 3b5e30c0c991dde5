import Mathlib.Algebra.BigOperators.Fin
import Mathlib.Algebra.Order.BigOperators.Group.Finset
import Mathlib.Data.Multiset.Fold
import Mathlib.Logic.Relation

/-!
# Threads that interleave

Threads with a list of operations each, a private state each and one shared state. A step takes the next
operation of any thread that has one, so a run is any interleaving of the lists. Three things are known
of a run whatever the schedule: a property of the shared state that every operation preserves, a quantity
to which every operation adds a fixed amount (`Steps.conserves`), and, for threads whose operations come
in tasks that prepare privately and commit once, the order of commits that explains the shared state
(`Steps.serializes`).
-/

namespace Interleaving

variable {ι Op P S : Type*}

/-- What each thread still has to do, the private states, and the shared state. -/
structure Config (ι Op P S : Type*) where
  pending : ι → List Op
  priv : ι → P
  shared : S

def Config.Done (c : Config ι Op P S) : Prop := ∀ t, c.pending t = []

variable [DecidableEq ι] (act : Op → P → S → P × S)

def Config.perform (c : Config ι Op P S) (t : ι) (op : Op) (rest : List Op) : Config ι Op P S where
  pending := Function.update c.pending t rest
  priv := Function.update c.priv t (act op (c.priv t) c.shared).1
  shared := (act op (c.priv t) c.shared).2

inductive Step : Config ι Op P S → Config ι Op P S → Prop
  | perform {c : Config ι Op P S} (t : ι) (op : Op) (rest : List Op) (hnext : c.pending t = op :: rest) :
      Step c (c.perform act t op rest)

def Steps : Config ι Op P S → Config ι Op P S → Prop := Relation.ReflTransGen (Step act)

variable {act}

theorem Steps.invariant {c c' : Config ι Op P S} (I : Config ι Op P S → Prop)
    (hstep : ∀ c c', I c → Step act c c' → I c') (hrun : Steps act c c') (hI : I c) : I c' := by
  induction hrun with
  | refl => exact hI
  | tail _ hlast ih => exact hstep _ _ ih hlast

theorem Steps.shared_invariant {c c' : Config ι Op P S} (I : S → Prop) (Q : Op → Prop)
    (hact : ∀ op p s, Q op → I s → I (act op p s).2) (hrun : Steps act c c')
    (hpending : ∀ t, ∀ op ∈ c.pending t, Q op) (hI : I c.shared) : I c'.shared := by
  have hboth := hrun.invariant (fun c => (∀ t, ∀ op ∈ c.pending t, Q op) ∧ I c.shared) (by
    rintro c c' ⟨hQ, hI⟩ ⟨t, op, rest, hnext⟩
    have hop : Q op := hQ t op (by simp [hnext])
    refine ⟨fun u op' hop' => ?_, hact op _ _ hop hI⟩
    by_cases hu : u = t
    · subst hu
      simp only [Config.perform, Function.update_self] at hop'
      exact hQ u op' (by simp [hnext, hop'])
    · simp only [Config.perform, Function.update_of_ne hu] at hop'
      exact hQ u op' hop') ⟨hpending, hI⟩
  exact hboth.2

/-! ### Progress -/

theorem exists_step (act : Op → P → S → P × S) {c : Config ι Op P S} (hc : ¬ c.Done) :
    ∃ c', Step act c c' := by
  obtain ⟨t, ht⟩ := not_forall.mp hc
  obtain ⟨op, rest, hnext⟩ := List.exists_cons_of_ne_nil ht
  exact ⟨_, .perform t op rest hnext⟩

section Conservation

variable [Fintype ι] {M : Type*} [AddCommMonoid M]

def Config.pendingCost (cost : Op → M) (c : Config ι Op P S) : M :=
  ∑ t, ((c.pending t).map cost).sum

private theorem pendingCost_perform (act : Op → P → S → P × S) (cost : Op → M)
    {c : Config ι Op P S} {t : ι} {op : Op} {rest : List Op} (hnext : c.pending t = op :: rest) :
    c.pendingCost cost = cost op + (c.perform act t op rest).pendingCost cost := by
  simp only [Config.pendingCost]
  rw [← Finset.add_sum_erase _ _ (Finset.mem_univ t),
    ← Finset.add_sum_erase _ (fun u => (((c.perform act t op rest).pending u).map cost).sum)
      (Finset.mem_univ t)]
  have hothers : ∀ u ∈ Finset.univ.erase t, (((c.perform act t op rest).pending u).map cost).sum
      = ((c.pending u).map cost).sum := by
    intro u hu
    simp [Config.perform, Function.update_of_ne (Finset.ne_of_mem_erase hu)]
  rw [Finset.sum_congr rfl hothers, hnext]
  simp [Config.perform, add_assoc]

/-- If every operation adds its cost to a quantity of the shared state, then what is there and what is
still to come have the same sum all along a run. -/
theorem Steps.conserves {c c' : Config ι Op P S} (weight : S → M) (cost : Op → M)
    (hact : ∀ op p s, weight (act op p s).2 = weight s + cost op) (hrun : Steps act c c') :
    weight c'.shared + c'.pendingCost cost = weight c.shared + c.pendingCost cost := by
  refine hrun.invariant (fun d => weight d.shared + d.pendingCost cost
    = weight c.shared + c.pendingCost cost) ?_ rfl
  rintro d d' hd ⟨t, op, rest, hnext⟩
  rw [← hd, pendingCost_perform act cost hnext, ← add_assoc]
  congr 1
  exact hact op _ _

omit [DecidableEq ι] in
theorem pendingCost_of_done {cost : Op → M} {c : Config ι Op P S} (hc : c.Done) :
    c.pendingCost cost = 0 := by
  simp [Config.pendingCost, hc _]

theorem exists_done (act : Op → P → S → P × S) (c : Config ι Op P S) :
    ∃ c', Steps act c c' ∧ c'.Done := by
  induction hcount : c.pendingCost (fun _ => 1) generalizing c with
  | zero =>
    refine ⟨c, .refl, fun t => ?_⟩
    have hzero : ((c.pending t).map fun _ => 1).sum = 0 :=
      (Finset.sum_eq_zero_iff.mp hcount) t (Finset.mem_univ t)
    simpa using hzero
  | succ count ih =>
    by_cases hc : c.Done
    · exact ⟨c, .refl, hc⟩
    · obtain ⟨d, hstep⟩ := exists_step act hc
      have hless : d.pendingCost (fun _ => 1) = count := by
        obtain ⟨t, op, rest, hnext⟩ := hstep
        have := pendingCost_perform act (fun _ => 1) hnext
        omega
      obtain ⟨c', hrun, hdone⟩ := ih d hless
      exact ⟨c', .head hstep hrun, hdone⟩

end Conservation

/-! ### Tasks

A task is a list of operations on the private state, its body, followed by one operation on the shared
state, its commit. If the commit does the same whatever private state the body started from, a run of
tasks is explained by the order in which they committed. -/

section Tasks

variable {κ O : Type*} (body : κ → List Op) (commit : κ → Op)

def taskOps (task : κ) : List Op := body task ++ [commit task]

variable (act) in
/-- What serialization asks of the operations: a body reads and writes the private state alone, as `prep`
says, and a commit after its body has the effect `effect task` on what is observed of the shared state. -/
structure Committing (prep : Op → P → P) (obs : S → O) (effect : κ → O → O) : Prop where
  body_priv : ∀ task, ∀ op ∈ body task, ∀ p s, (act op p s).1 = prep op p
  body_shared : ∀ task, ∀ op ∈ body task, ∀ p s, obs (act op p s).2 = obs s
  commit_shared : ∀ task p s,
    obs (act (commit task) ((body task).foldl (fun p op => prep op p) p) s).2 = effect task (obs s)

/-- A thread with the tasks `left` still to commit: between two tasks, or inside the first one with a part
of its body done. -/
inductive Midway (prep : Op → P → P) : List Op → P → List κ → Prop
  | between (p : P) (left : List κ) : Midway prep (left.flatMap (taskOps body commit)) p left
  | inside (task : κ) (left : List κ) (before after : List Op) (p : P)
      (hbody : body task = before ++ after) :
      Midway prep (after ++ commit task :: left.flatMap (taskOps body commit))
        (before.foldl (fun p op => prep op p) p) (task :: left)

variable {body commit}

private theorem Midway.next {prep : Op → P → P} {op : Op} {rest : List Op} {p : P} {left : List κ}
    (h : Midway body commit prep (op :: rest) p left) :
    (∃ task, op ∈ body task ∧ Midway body commit prep rest (prep op p) left) ∨
      ∃ task later p₀, left = task :: later ∧ op = commit task ∧
        p = (body task).foldl (fun p op => prep op p) p₀ ∧
        ∀ q, Midway body commit prep rest q later := by
  -- a thread between tasks is inside its first task with nothing of the body done
  have hinside : ∃ task later before after p₀, left = task :: later ∧ body task = before ++ after ∧
      op :: rest = after ++ commit task :: later.flatMap (taskOps body commit) ∧
      p = before.foldl (fun p op => prep op p) p₀ := by
    generalize hops : op :: rest = ops at h
    cases h with
    | between p left =>
      cases left with
      | nil => simp at hops
      | cons task later =>
        exact ⟨task, later, [], body task, p, rfl, rfl, by simp [taskOps], rfl⟩
    | inside task later before after p₀ hbody =>
      exact ⟨task, later, before, after, p₀, rfl, hbody, rfl, rfl⟩
  obtain ⟨task, later, before, after, p₀, rfl, hbody, hops, rfl⟩ := hinside
  cases after with
  | nil =>
    obtain ⟨rfl, rfl⟩ := List.cons.inj hops
    rw [List.append_nil] at hbody
    exact .inr ⟨task, later, p₀, rfl, rfl, by rw [hbody], fun q => .between q later⟩
  | cons first after =>
    obtain ⟨rfl, rfl⟩ := List.cons.inj hops
    refine .inl ⟨task, by simp [hbody], ?_⟩
    have hmid : Midway body commit prep (after ++ commit task :: later.flatMap (taskOps body commit)) _ _ :=
      .inside task later (before ++ [op]) after p₀ (by simp [hbody])
    simpa using hmid

private theorem Midway.finished {prep : Op → P → P} {p : P} {left : List κ}
    (h : Midway body commit prep [] p left) : left = [] := by
  generalize hops : ([] : List Op) = ops at h
  cases h with
  | between p left =>
    cases left with
    | nil => rfl
    | cons task later => simp [taskOps] at hops
  | inside task later before after p hbody => simp at hops

variable [Fintype ι]

/-- The tasks committed so far, in order, with those left to the threads, are the tasks of the run, and
the committed ones alone have made the shared state what it is. -/
private def Serial (body : κ → List Op) (commit : κ → Op) (prep : Op → P → P) (obs : S → O)
    (effect : κ → O → O) (tasks : Multiset κ) (start : O) (c : Config ι Op P S) : Prop :=
  ∃ (order : List κ) (left : ι → List κ),
    (order : Multiset κ) + ∑ t, (left t : Multiset κ) = tasks ∧
    obs c.shared = order.foldl (fun o task => effect task o) start ∧
    ∀ t, Midway body commit prep (c.pending t) (c.priv t) (left t)

private theorem serial_step {prep : Op → P → P} {obs : S → O} {effect : κ → O → O}
    (hcommitting : Committing act body commit prep obs effect) {tasks : Multiset κ} {start : O}
    {c c' : Config ι Op P S} (hc : Serial body commit prep obs effect tasks start c)
    (hstep : Step act c c') : Serial body commit prep obs effect tasks start c' := by
  obtain ⟨order, left, htasks, hshared, hmid⟩ := hc
  obtain ⟨t, op, rest, hnext⟩ := hstep
  have hthread := hmid t
  rw [hnext] at hthread
  -- threads other than `t` are where they were
  have hothers : ∀ left' : ι → List κ, (∀ u, u ≠ t → left' u = left u) →
      Midway body commit prep rest (act op (c.priv t) c.shared).1 (left' t) →
      ∀ u, Midway body commit prep ((c.perform act t op rest).pending u)
        ((c.perform act t op rest).priv u) (left' u) := by
    intro left' hsame hself u
    by_cases hu : u = t
    · subst hu
      simpa [Config.perform] using hself
    · simpa [Config.perform, Function.update_of_ne hu, hsame u hu] using hmid u
  rcases hthread.next with ⟨task, hop, hrest⟩ | ⟨task, later, p₀, hleft, rfl, hp, hrest⟩
  · refine ⟨order, left, htasks, ?_, hothers left (fun _ _ => rfl) ?_⟩
    · exact (hcommitting.body_shared task op hop _ _).trans hshared
    · rw [hcommitting.body_priv task op hop]
      exact hrest
  · refine ⟨order ++ [task], Function.update left t later, ?_, ?_,
      hothers _ (fun u hu => Function.update_of_ne hu _ _) (by simpa using hrest _)⟩
    · rw [← htasks, ← Finset.add_sum_erase _ _ (Finset.mem_univ t),
        ← Finset.add_sum_erase _ (fun u => (left u : Multiset κ)) (Finset.mem_univ t)]
      have herase : ∀ u ∈ Finset.univ.erase t, ((Function.update left t later u : List κ) : Multiset κ)
          = left u := fun u hu => by rw [Function.update_of_ne (Finset.ne_of_mem_erase hu)]
      have hcons : ((task :: later : List κ) : Multiset κ) = {task} + (later : Multiset κ) := by
        rw [Multiset.singleton_add, Multiset.cons_coe]
      rw [Finset.sum_congr rfl herase, hleft, Function.update_self, hcons, ← Multiset.coe_add,
        Multiset.coe_singleton]
      simp only [add_assoc]
    · rw [List.foldl_append, ← hshared, List.foldl_cons, List.foldl_nil]
      change obs (act (commit task) (c.priv t) c.shared).2 = _
      rw [hp, hcommitting.commit_shared]

/-- **Serialization.** A finished run of tasks leaves the shared state as the tasks leave it one after the
other, in the order in which they committed, and that order has every task as often as the threads had it. -/
theorem Steps.serializes {prep : Op → P → P} {obs : S → O} {effect : κ → O → O}
    (hcommitting : Committing act body commit prep obs effect) {c c' : Config ι Op P S}
    (work : ι → List κ) (hwork : ∀ t, c.pending t = (work t).flatMap (taskOps body commit))
    (hrun : Steps act c c') (hdone : c'.Done) :
    ∃ order : List κ, (order : Multiset κ) = ∑ t, (work t : Multiset κ) ∧
      obs c'.shared = order.foldl (fun o task => effect task o) (obs c.shared) := by
  have hserial : Serial body commit prep obs effect (∑ t, (work t : Multiset κ)) (obs c.shared) c' :=
    hrun.invariant _ (fun _ _ hc hstep => serial_step hcommitting hc hstep)
      ⟨[], work, by simp, rfl, fun t => by rw [hwork t]; exact .between _ _⟩
  obtain ⟨order, left, htasks, hshared, hmid⟩ := hserial
  refine ⟨order, ?_, hshared⟩
  have hnone : ∀ t, left t = [] := by
    intro t
    have hthread := hmid t
    rw [hdone t] at hthread
    exact hthread.finished
  simpa [hnone] using htasks

omit [DecidableEq ι] in
theorem pendingCost_tasks {M : Type*} [AddCommMonoid M] (cost : Op → M) {c : Config ι Op P S}
    (work : ι → List κ) (hwork : ∀ t, c.pending t = (work t).flatMap (taskOps body commit)) :
    c.pendingCost cost
      = ((∑ t, (work t : Multiset κ)).map fun task => ((taskOps body commit task).map cost).sum).sum := by
  have hthread : ∀ tasks : List κ, ((tasks.flatMap (taskOps body commit)).map cost).sum
      = ((tasks : Multiset κ).map fun task => ((taskOps body commit task).map cost).sum).sum := by
    intro tasks
    induction tasks with
    | nil => simp
    | cons task tasks ih => simp_all
  have hsum : ∀ f : κ → M, ((∑ t, (work t : Multiset κ)).map f).sum
      = ∑ t, ((work t : Multiset κ).map f).sum := by
    intro f
    exact map_sum ((Multiset.sumAddMonoidHom).comp (Multiset.mapAddMonoidHom f)) _ _
  rw [hsum]
  exact Finset.sum_congr rfl fun t _ => by rw [hwork t, hthread]

end Tasks

/-! ### One thread without interruption -/

def runOps (act : Op → P → S → P × S) (ops : List Op) (p : P) (s : S) : P × S :=
  ops.foldl (fun ps op => act op ps.1 ps.2) (p, s)

theorem steps_thread (act : Op → P → S → P × S) (t : ι) (c : Config ι Op P S) {ops : List Op}
    (hops : c.pending t = ops) :
    Steps act c ⟨Function.update c.pending t [],
      Function.update c.priv t (runOps act ops (c.priv t) c.shared).1,
      (runOps act ops (c.priv t) c.shared).2⟩ := by
  induction ops generalizing c with
  | nil =>
    simp only [runOps, List.foldl_nil, Function.update_eq_self]
    rw [← hops, Function.update_eq_self]
    exact .refl
  | cons op ops ih =>
    have hrest := ih (c.perform act t op ops) (Function.update_self _ _ _)
    simp only [Config.perform, Function.update_idem, Function.update_self] at hrest
    exact .head (.perform t op ops hops) hrest

end Interleaving

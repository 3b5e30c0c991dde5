import Mathlib.Algebra.BigOperators.Fin
import Mathlib.Algebra.Order.BigOperators.Group.Finset
import Mathlib.Logic.Relation

/-!
# A barrier that is used again and again

Each thread goes through a list of operations. An operation that synchronizes counts the threads that have
come to it under a lock: all but the last sleep until the phase number has moved, and the last one moves it,
performs the effect of its own operation, leaves the lock and then notifies the sleepers. The other
operations take effect at once. A sleeper may wake without a notification where `spurious` allows it.
The phase number is a machine's: beyond `maxPhase` it overflows, which is a failure.

What holds in every run, whatever the schedule: the threads are in step (`Lockstep`); where no thread has
more barriers than phases can be counted, an effect of the phase `k` finds the data as the effects of the
phases before left it (`PhaseRule`), and no run gets stuck or goes on for ever (`Steps.completes`).
-/

namespace Barrier

variable {ι Op S ε : Type*}

/-- Where a thread stands: between two operations, asleep in the barrier since the phase `since`, or past
the barrier as the last to come, with the others still to notify. -/
inductive Place
  | running
  | waiting (since : Nat) (signalled : Bool)
  | last
  deriving DecidableEq

def Place.blockedIn (phase : Nat) : Place → Bool
  | .waiting since _ => since == phase
  | _ => false

/-- What a notification does to a thread: one that may leave the barrier is told so, and one that came for
the next phase finds its condition false and sleeps on. -/
def Place.notified (phase : Nat) : Place → Place
  | .waiting since signalled => .waiting since (signalled || decide (since < phase))
  | place => place

def Place.cost : Place → Nat
  | .running => 0
  | _ => 1

inductive Failure (ε : Type*)
  | overfull
  | phaseOverflow
  | effect (e : ε)

structure Config (ι Op S ε : Type*) where
  pending : ι → List Op
  place : ι → Place
  entered : Nat
  phase : Nat
  steps : Nat
  data : S
  failure : Option (Failure ε)

def Config.start (script : ι → List Op) (data : S) : Config ι Op S ε where
  pending := script
  place _ := .running
  entered := 0
  phase := 0
  steps := 0
  data := data
  failure := none

def Config.Done (c : Config ι Op S ε) : Prop := ∀ t, c.pending t = [] ∧ c.place t = .running

section Semantics

variable [DecidableEq ι] (act : Op → Nat → S → Except ε S)

/-- The effect of an operation, which may read the number of the step as its clock. -/
def Config.perform (c : Config ι Op S ε) (op : Op) : Config ι Op S ε :=
  match act op c.steps c.data with
  | .ok data => { c with data := data, steps := c.steps + 1 }
  | .error e => { c with failure := some (.effect e), steps := c.steps + 1 }

variable (maxPhase : Nat)

/-- The thread `t` comes to the barrier with `op`. The phase number is counted up to `maxPhase`, beyond which it
overflows. -/
def Config.arrive [Fintype ι] (c : Config ι Op S ε) (t : ι) (op : Op) (rest : List Op) :
    Config ι Op S ε :=
  if c.entered < Fintype.card ι then
    if c.entered + 1 < Fintype.card ι then
      { c with
        pending := Function.update c.pending t rest
        place := Function.update c.place t (.waiting c.phase false)
        entered := c.entered + 1
        steps := c.steps + 1 }
    else if c.phase < maxPhase then
      { c with
        pending := Function.update c.pending t rest
        place := Function.update c.place t .last
        entered := 0
        phase := c.phase + 1 }.perform act op
    else { c with failure := some .phaseOverflow, steps := c.steps + 1 }
  else { c with failure := some .overfull, steps := c.steps + 1 }

variable [Fintype ι] (sync : Op → Bool) (spurious : Bool)

inductive Step : Config ι Op S ε → Config ι Op S ε → Prop
  | free {c : Config ι Op S ε} (t : ι) (op : Op) (rest : List Op) (hfree : sync op = false)
      (hplace : c.place t = .running) (hnext : c.pending t = op :: rest) (hgood : c.failure = none) :
      Step c ({ c with pending := Function.update c.pending t rest }.perform act op)
  | arrive {c : Config ι Op S ε} (t : ι) (op : Op) (rest : List Op) (hsync : sync op = true)
      (hplace : c.place t = .running) (hnext : c.pending t = op :: rest) (hgood : c.failure = none) :
      Step c (c.arrive act maxPhase t op rest)
  | notify {c : Config ι Op S ε} (t : ι) (hplace : c.place t = .last) (hgood : c.failure = none) :
      Step c { c with
        place := Function.update (fun u => (c.place u).notified c.phase) t .running
        steps := c.steps + 1 }
  | wake {c : Config ι Op S ε} (t : ι) (since : Nat) (signalled : Bool)
      (hplace : c.place t = .waiting since signalled) (hmoved : since < c.phase)
      (hcause : signalled = true ∨ spurious = true) (hgood : c.failure = none) :
      Step c { c with place := Function.update c.place t .running, steps := c.steps + 1 }

def Steps : Config ι Op S ε → Config ι Op S ε → Prop := Relation.ReflTransGen (Step act maxPhase sync spurious)

end Semantics

section Fields

variable (act : Op → Nat → S → Except ε S) (c : Config ι Op S ε) (op : Op)

@[simp] theorem perform_pending : (c.perform act op).pending = c.pending := by
  unfold Config.perform
  split <;> rfl

@[simp] theorem perform_place : (c.perform act op).place = c.place := by
  unfold Config.perform
  split <;> rfl

theorem perform_entered : (c.perform act op).entered = c.entered := by
  unfold Config.perform
  split <;> rfl

@[simp] theorem perform_phase : (c.perform act op).phase = c.phase := by
  unfold Config.perform
  split <;> rfl

theorem perform_steps : (c.perform act op).steps = c.steps + 1 := by
  unfold Config.perform
  split <;> rfl

end Fields

variable [DecidableEq ι] [Fintype ι] {act : Op → Nat → S → Except ε S} {maxPhase : Nat} {sync : Op → Bool}
  {spurious : Bool}

/-- What an arrival that does not fail has done. -/
theorem arrive_cases {c : Config ι Op S ε} {t : ι} {op : Op} {rest : List Op}
    (hgood : (c.arrive act maxPhase t op rest).failure = none) :
    c.arrive act maxPhase t op rest = { c with
        pending := Function.update c.pending t rest
        place := Function.update c.place t (.waiting c.phase false)
        entered := c.entered + 1
        steps := c.steps + 1 } ∨
      c.arrive act maxPhase t op rest = { c with
        pending := Function.update c.pending t rest
        place := Function.update c.place t .last
        entered := 0
        phase := c.phase + 1 }.perform act op := by
  unfold Config.arrive at hgood ⊢
  by_cases hfull : c.entered < Fintype.card ι
  · rw [if_pos hfull] at hgood ⊢
    by_cases hroom : c.entered + 1 < Fintype.card ι
    · exact .inl (if_pos hroom)
    · rw [if_neg hroom] at hgood ⊢
      by_cases hphase : c.phase < maxPhase
      · exact .inr (if_pos hphase)
      · rw [if_neg hphase] at hgood
        cases hgood
  · rw [if_neg hfull] at hgood
    cases hgood

theorem Step.good {c c' : Config ι Op S ε} (hstep : Step act maxPhase sync spurious c c') : c.failure = none := by
  cases hstep <;> assumption

theorem Steps.invariant {c c' : Config ι Op S ε} (I : Config ι Op S ε → Prop)
    (hstep : ∀ c c', I c → Step act maxPhase sync spurious c c' → I c') (hrun : Steps act maxPhase sync spurious c c')
    (hI : I c) : I c' := by
  induction hrun with
  | refl => exact hI
  | tail _ hlast ih => exact hstep _ _ ih hlast

/-! ### The threads are in step -/

theorem Place.blockedIn_iff {phase : Nat} {place : Place} :
    place.blockedIn phase = true ↔ ∃ signalled, place = .waiting phase signalled := by
  cases place with
  | running => simp [blockedIn]
  | waiting since signalled => simp [blockedIn]
  | last => simp [blockedIn]

def Config.blocked (c : Config ι Op S ε) : Finset ι :=
  Finset.univ.filter fun t => (c.place t).blockedIn c.phase = true

variable (sync) in
/-- The number of barriers a thread has come to, one more than the phase where it is asleep in the
present one; what the counter `entered_` counts; and why no notification is lost. -/
structure Lockstep (script : ι → List Op) (c : Config ι Op S ε) : Prop where
  passed : ∀ t, ∃ done, script t = done ++ c.pending t ∧
    done.countP sync = c.phase + (if (c.place t).blockedIn c.phase then 1 else 0)
  entered : c.entered = c.blocked.card
  entered_lt : c.entered < Fintype.card ι
  since_le : ∀ t since signalled, c.place t = .waiting since signalled → since ≤ c.phase
  notifier : ∀ t since, c.place t = .waiting since false → since < c.phase → ∃ u, c.place u = .last

omit [DecidableEq ι] in
theorem Lockstep.start [Nonempty ι] (script : ι → List Op) (data : S) :
    Lockstep sync script (Config.start script data : Config ι Op S ε) where
  passed t := ⟨[], by simp [Config.start, Place.blockedIn]⟩
  entered := by simp [Config.start, Config.blocked, Place.blockedIn]
  entered_lt := Fintype.card_pos
  since_le t since signalled h := by simp [Config.start] at h
  notifier t since h := by simp [Config.start] at h

omit [DecidableEq ι] in
private theorem passed_cons {script : ι → List Op} {c : Config ι Op S ε} (hc : Lockstep sync script c)
    {t : ι} {op : Op} {rest : List Op} (hplace : c.place t = .running) (hnext : c.pending t = op :: rest) :
    ∃ done, script t = done ++ op :: rest ∧ done.countP sync = c.phase := by
  obtain ⟨done, hscript, hcount⟩ := hc.passed t
  refine ⟨done, by rw [hscript, hnext], ?_⟩
  simpa [hplace, Place.blockedIn] using hcount

omit [DecidableEq ι] in
theorem mem_blocked {c : Config ι Op S ε} {t : ι} :
    t ∈ c.blocked ↔ (c.place t).blockedIn c.phase = true := by
  simp [Config.blocked]

private theorem blocked_of_last {script : ι → List Op} {c : Config ι Op S ε}
    (hc : Lockstep sync script c) {t : ι} (hplace : c.place t = .running)
    (hlast : ¬ c.entered + 1 < Fintype.card ι) {u : ι} (hu : u ≠ t) :
    (c.place u).blockedIn c.phase = true := by
  have hsub : c.blocked ⊆ Finset.univ.erase t := by
    intro v hv
    refine Finset.mem_erase.mpr ⟨?_, Finset.mem_univ v⟩
    rintro rfl
    simp [mem_blocked, hplace, Place.blockedIn] at hv
  have hcard : (Finset.univ.erase t).card ≤ c.blocked.card := by
    rw [Finset.card_erase_of_mem (Finset.mem_univ t), Finset.card_univ, ← hc.entered]
    omega
  have hall := Finset.eq_of_subset_of_card_le hsub hcard
  exact mem_blocked.mp (hall ▸ Finset.mem_erase.mpr ⟨hu, Finset.mem_univ u⟩)

private theorem lockstep_free {script : ι → List Op} {c : Config ι Op S ε} (hc : Lockstep sync script c)
    {t : ι} {op : Op} {rest : List Op} (hfree : sync op = false) (hplace : c.place t = .running)
    (hnext : c.pending t = op :: rest) :
    Lockstep sync script ({ c with pending := Function.update c.pending t rest }.perform act op) where
  passed u := by
    by_cases hu : u = t
    · subst hu
      obtain ⟨done, hscript, hcount⟩ := passed_cons hc hplace hnext
      refine ⟨done ++ [op], by simp [hscript], ?_⟩
      simp [hcount, hfree, hplace, Place.blockedIn]
    · simpa [Function.update_of_ne hu] using hc.passed u
  entered := by
    rw [perform_entered]
    simpa [Config.blocked] using hc.entered
  entered_lt := by
    rw [perform_entered]
    exact hc.entered_lt
  since_le u since signalled h := by
    simpa using hc.since_le u since signalled (by simpa using h)
  notifier u since h hlt := by
    simpa using hc.notifier u since (by simpa using h) (by simpa using hlt)

private theorem lockstep_wait {script : ι → List Op} {c : Config ι Op S ε} (hc : Lockstep sync script c)
    {t : ι} {op : Op} {rest : List Op} (hsync : sync op = true) (hplace : c.place t = .running)
    (hnext : c.pending t = op :: rest) (hroom : c.entered + 1 < Fintype.card ι) :
    Lockstep sync script { c with
      pending := Function.update c.pending t rest
      place := Function.update c.place t (.waiting c.phase false)
      entered := c.entered + 1
      steps := c.steps + 1 } where
  passed u := by
    by_cases hu : u = t
    · subst hu
      obtain ⟨done, hscript, hcount⟩ := passed_cons hc hplace hnext
      refine ⟨done ++ [op], by simp [hscript], ?_⟩
      simp [hcount, hsync, Place.blockedIn]
    · simpa [Function.update_of_ne hu] using hc.passed u
  entered := by
    have hnot : t ∉ c.blocked := by simp [mem_blocked, hplace, Place.blockedIn]
    have hinsert : Config.blocked { c with
        pending := Function.update c.pending t rest
        place := Function.update c.place t (.waiting c.phase false)
        entered := c.entered + 1
        steps := c.steps + 1 } = insert t c.blocked := by
      ext u
      by_cases hu : u = t
      · subst hu
        simp [mem_blocked, Place.blockedIn]
      · simp [mem_blocked, hu]
    rw [hinsert, Finset.card_insert_of_notMem hnot, ← hc.entered]
  entered_lt := hroom
  since_le u since signalled h := by
    by_cases hu : u = t
    · subst hu
      simp only [Function.update_self, Place.waiting.injEq] at h
      exact h.1.symm.le
    · simp only [Function.update_of_ne hu] at h
      exact hc.since_le u since signalled h
  notifier u since h hlt := by
    by_cases hu : u = t
    · subst hu
      simp only [Function.update_self, Place.waiting.injEq] at h
      exact absurd hlt (by simp [h.1])
    · simp only [Function.update_of_ne hu] at h
      obtain ⟨v, hv⟩ := hc.notifier u since h hlt
      have hvt : v ≠ t := by
        rintro rfl
        simp [hplace] at hv
      exact ⟨v, by simpa [Function.update_of_ne hvt] using hv⟩

private theorem lockstep_last {script : ι → List Op} {c : Config ι Op S ε} (hc : Lockstep sync script c)
    {t : ι} {op : Op} {rest : List Op} (hsync : sync op = true) (hplace : c.place t = .running)
    (hnext : c.pending t = op :: rest) (hlast : ¬ c.entered + 1 < Fintype.card ι) :
    Lockstep sync script ({ c with
      pending := Function.update c.pending t rest
      place := Function.update c.place t .last
      entered := 0
      phase := c.phase + 1 }.perform act op) := by
  -- nobody can be asleep in the phase that begins
  have hnone : ∀ u, (Function.update c.place t .last u).blockedIn (c.phase + 1) = false := by
    intro u
    by_contra h
    obtain ⟨signalled, hu⟩ := Place.blockedIn_iff.mp (Bool.not_eq_false _ ▸ h)
    by_cases hut : u = t
    · subst hut
      simp at hu
    · rw [Function.update_of_ne hut] at hu
      have := hc.since_le u _ _ hu
      omega
  refine ⟨fun u => ?_, ?_, ?_, fun u since signalled h => ?_, fun u since h hlt => ?_⟩
  · simp only [perform_pending, perform_phase, perform_place, hnone]
    by_cases hu : u = t
    · subst hu
      obtain ⟨done, hscript, hcount⟩ := passed_cons hc hplace hnext
      exact ⟨done ++ [op], by simp [hscript], by simp [hcount, hsync]⟩
    · obtain ⟨done, hscript, hcount⟩ := hc.passed u
      refine ⟨done, by simpa [Function.update_of_ne hu] using hscript, ?_⟩
      simpa [blocked_of_last hc hplace hlast hu] using hcount
  · rw [perform_entered]
    simp [Config.blocked, hnone]
  · rw [perform_entered]
    exact Fintype.card_pos_iff.mpr ⟨t⟩
  · by_cases hu : u = t
    · subst hu
      simp at h
    · have := hc.since_le u since signalled (by simpa [Function.update_of_ne hu] using h)
      simp only [perform_phase]
      omega
  · exact ⟨t, by simp⟩

omit [DecidableEq ι] in
private theorem lockstep_place {script : ι → List Op} {c : Config ι Op S ε} (hc : Lockstep sync script c)
    (place : ι → Place) (steps : Nat)
    (hblocked : ∀ u, (place u).blockedIn c.phase = (c.place u).blockedIn c.phase)
    (hsince : ∀ u since signalled, place u = .waiting since signalled →
      ∃ signalled', c.place u = .waiting since signalled')
    (hnotifier : ∀ u since, place u = .waiting since false → since < c.phase → ∃ v, place v = .last) :
    Lockstep sync script { c with place := place, steps := steps } where
  passed u := by simpa [hblocked] using hc.passed u
  entered := by simpa [Config.blocked, hblocked] using hc.entered
  entered_lt := hc.entered_lt
  since_le u since signalled h := by
    obtain ⟨signalled', h'⟩ := hsince u since signalled h
    exact hc.since_le u since signalled' h'
  notifier := hnotifier

theorem Lockstep.step {script : ι → List Op} {c c' : Config ι Op S ε} (hc : Lockstep sync script c)
    (hstep : Step act maxPhase sync spurious c c') : Lockstep sync script c' := by
  cases hstep with
  | free t op rest hfree hplace hnext hgood => exact lockstep_free hc hfree hplace hnext
  | arrive t op rest hsync hplace hnext hgood =>
    unfold Config.arrive
    rw [if_pos hc.entered_lt]
    split
    · exact lockstep_wait hc hsync hplace hnext ‹_›
    · split
      · exact lockstep_last hc hsync hplace hnext ‹_›
      · exact ⟨hc.passed, hc.entered, hc.entered_lt, hc.since_le, hc.notifier⟩
  | notify t hplace hgood =>
    refine lockstep_place hc _ _ (fun u => ?_) (fun u since signalled h => ?_) fun u since h hlt => ?_
    · by_cases hu : u = t
      · subst hu
        simp [hplace, Place.blockedIn]
      · simp only [Function.update_of_ne hu]
        cases c.place u <;> rfl
    · by_cases hu : u = t
      · subst hu
        simp at h
      · simp only [Function.update_of_ne hu] at h
        cases hcu : c.place u <;> simp_all [Place.notified]
    · by_cases hu : u = t
      · subst hu
        simp at h
      · simp only [Function.update_of_ne hu] at h
        cases hcu : c.place u <;> simp_all [Place.notified]
        omega
  | wake t since signalled hplace hmoved hcause hgood =>
    refine lockstep_place hc _ _ (fun u => ?_) (fun u since' signalled' h => ?_) fun u since' h hlt => ?_
    · by_cases hu : u = t
      · subst hu
        simp [hplace, Place.blockedIn, hmoved.ne]
      · simp [Function.update_of_ne hu]
    · by_cases hu : u = t
      · subst hu
        simp at h
      · exact ⟨signalled', by simpa [Function.update_of_ne hu] using h⟩
    · by_cases hu : u = t
      · subst hu
        simp at h
      · obtain ⟨v, hv⟩ := hc.notifier u since' (by simpa [Function.update_of_ne hu] using h) hlt
        have hvt : v ≠ t := by
          rintro rfl
          simp [hplace] at hv
        exact ⟨v, by simpa [Function.update_of_ne hvt] using hv⟩

theorem Steps.lockstep [Nonempty ι] {script : ι → List Op} {data : S} {c : Config ι Op S ε}
    (hrun : Steps act maxPhase sync spurious (.start script data) c) : Lockstep sync script c :=
  hrun.invariant (Lockstep sync script) (fun _ _ hc hstep => hc.step hstep) (.start script data)

omit [DecidableEq ι] in
/-- A thread that is not asleep in the barrier has come to no more barriers than any other. -/
theorem Lockstep.passed_le {script : ι → List Op} {c : Config ι Op S ε} (hc : Lockstep sync script c)
    {t u : ι} {done done' : List Op} (hplace : c.place t = .running)
    (ht : script t = done ++ c.pending t) (hu : script u = done' ++ c.pending u) :
    done.countP sync ≤ done'.countP sync := by
  obtain ⟨before, hbefore, hcount⟩ := hc.passed t
  obtain ⟨before', hbefore', hcount'⟩ := hc.passed u
  obtain rfl := List.append_cancel_right (ht.symm.trans hbefore)
  obtain rfl := List.append_cancel_right (hu.symm.trans hbefore')
  simp only [hplace, Place.blockedIn, Bool.false_eq_true, if_false] at hcount
  omega

/-! ### The data -/

variable (act maxPhase sync) in
/-- `I k n` is what holds of the data at the step `n` of the phase `k`: an operation that follows `k`
synchronizing ones in its thread finds the data so, and has no failure there. -/
structure PhaseRule (script : ι → List Op) (I : Nat → Nat → S → Prop) : Prop where
  few : ∀ t, (script t).countP sync ≤ maxPhase
  later : ∀ k n s, I k n s → I k (n + 1) s
  free : ∀ t done op rest, script t = done ++ op :: rest → sync op = false → ∀ n s,
    I (done.countP sync) n s → ∃ s', act op n s = .ok s' ∧ I (done.countP sync) (n + 1) s'
  arrive : ∀ t done op rest, script t = done ++ op :: rest → sync op = true → ∀ n s,
    I (done.countP sync) n s → ∃ s', act op n s = .ok s' ∧ I (done.countP sync + 1) (n + 1) s'

omit [DecidableEq ι] [Fintype ι] in
/-- A further property of the data, where the operations that succeed under `I` keep it. -/
theorem PhaseRule.and {script : ι → List Op} {I J : Nat → Nat → S → Prop}
    (hrule : PhaseRule act maxPhase sync script I) (hlater : ∀ k n s, J k n s → J k (n + 1) s)
    (hJ : ∀ t done op rest, script t = done ++ op :: rest → ∀ n s s', act op n s = .ok s' →
      I (done.countP sync) n s → J (done.countP sync) n s →
      J (if sync op then done.countP sync + 1 else done.countP sync) (n + 1) s') :
    PhaseRule act maxPhase sync script fun k n s => I k n s ∧ J k n s where
  few := hrule.few
  later k n s h := ⟨hrule.later k n s h.1, hlater k n s h.2⟩
  free t done op rest hscript hfree n s h := by
    obtain ⟨s', hact, hs'⟩ := hrule.free t done op rest hscript hfree n s h.1
    have hJ' := hJ t done op rest hscript n s s' hact h.1 h.2
    simp only [hfree, Bool.false_eq_true, if_false] at hJ'
    exact ⟨s', hact, hs', hJ'⟩
  arrive t done op rest hscript hsync n s h := by
    obtain ⟨s', hact, hs'⟩ := hrule.arrive t done op rest hscript hsync n s h.1
    have hJ' := hJ t done op rest hscript n s s' hact h.1 h.2
    simp only [hsync, if_true] at hJ'
    exact ⟨s', hact, hs', hJ'⟩

/-- No failure so far, and the data as the phase has it. -/
structure Holds (I : Nat → Nat → S → Prop) (c : Config ι Op S ε) : Prop where
  good : c.failure = none
  data : I c.phase c.steps c.data

omit [DecidableEq ι] [Fintype ι] in
private theorem holds_perform {I : Nat → Nat → S → Prop} {c : Config ι Op S ε} {op : Op} {s' : S}
    (hgood : c.failure = none) (hact : act op c.steps c.data = .ok s')
    (hI : I c.phase (c.steps + 1) s') : Holds I (c.perform act op) := by
  unfold Config.perform
  rw [hact]
  exact ⟨hgood, hI⟩

theorem PhaseRule.step {script : ι → List Op} {I : Nat → Nat → S → Prop}
    (hrule : PhaseRule act maxPhase sync script I) {c c' : Config ι Op S ε} (hc : Lockstep sync script c)
    (hI : Holds I c) (hstep : Step act maxPhase sync spurious c c') : Holds I c' := by
  cases hstep with
  | free t op rest hfree hplace hnext hgood =>
    obtain ⟨done, hscript, hcount⟩ := passed_cons hc hplace hnext
    obtain ⟨s', hact, hs'⟩ := hrule.free t done op rest hscript hfree c.steps c.data (hcount ▸ hI.data)
    exact holds_perform hgood hact (hcount ▸ hs')
  | arrive t op rest hsync hplace hnext hgood =>
    obtain ⟨done, hscript, hcount⟩ := passed_cons hc hplace hnext
    unfold Config.arrive
    rw [if_pos hc.entered_lt]
    split
    · exact ⟨hgood, hrule.later _ _ _ hI.data⟩
    · obtain ⟨s', hact, hs'⟩ :=
        hrule.arrive t done op rest hscript hsync c.steps c.data (hcount ▸ hI.data)
      have hroom : c.phase < maxPhase := by
        have hfew := hrule.few t
        rw [hscript, List.countP_append, List.countP_cons_of_pos hsync] at hfew
        omega
      rw [if_pos hroom]
      exact holds_perform hgood hact (hcount ▸ hs')
  | notify t hplace hgood => exact ⟨hgood, hrule.later _ _ _ hI.data⟩
  | wake t since signalled hplace hmoved hcause hgood => exact ⟨hgood, hrule.later _ _ _ hI.data⟩

theorem Steps.holds [Nonempty ι] {script : ι → List Op} {I : Nat → Nat → S → Prop}
    (hrule : PhaseRule act maxPhase sync script I) {data : S} (hstart : I 0 0 data) {c : Config ι Op S ε}
    (hrun : Steps act maxPhase sync spurious (.start script data) c) : Holds I c := by
  have hboth := hrun.invariant (fun c => Lockstep sync script c ∧ Holds I c)
    (fun c c' hc hstep => ⟨hc.1.step hstep, hrule.step hc.1 hc.2 hstep⟩)
    ⟨.start script data, rfl, hstart⟩
  exact hboth.2

section Conservation

variable {M : Type*} [AddCommMonoid M]

def Config.pendingCost (cost : Op → M) (c : Config ι Op S ε) : M :=
  ∑ t, ((c.pending t).map cost).sum

private theorem sum_pending_update (cost : Op → M) (pending : ι → List Op) {t : ι} {op : Op}
    {rest : List Op} (hnext : pending t = op :: rest) :
    ∑ u, ((pending u).map cost).sum
      = cost op + ∑ u, ((Function.update pending t rest u).map cost).sum := by
  rw [← Finset.add_sum_erase _ _ (Finset.mem_univ t),
    ← Finset.add_sum_erase _ (fun u => ((Function.update pending t rest u).map cost).sum)
      (Finset.mem_univ t)]
  have hothers : ∀ u ∈ Finset.univ.erase t, ((Function.update pending t rest u).map cost).sum
      = ((pending u).map cost).sum := by
    intro u hu
    rw [Function.update_of_ne (Finset.ne_of_mem_erase hu)]
  rw [Finset.sum_congr rfl hothers, hnext, Function.update_self, List.map_cons, List.sum_cons, add_assoc]

/-- What the operations add to a quantity of the data, where only those that do not synchronize add. -/
structure Weighs (act : Op → Nat → S → Except ε S) (sync : Op → Bool) (weight : S → M) (cost : Op → M) :
    Prop where
  effect : ∀ op n s s', act op n s = .ok s' → weight s' = weight s + cost op
  sync : ∀ op, sync op = true → cost op = 0

omit [DecidableEq ι] in
private theorem perform_weight {weight : S → M} {cost : Op → M} (hweighs : Weighs act sync weight cost)
    {c : Config ι Op S ε} {op : Op} (hgood : (c.perform act op).failure = none) :
    weight (c.perform act op).data + (c.perform act op).pendingCost cost
      = weight c.data + (cost op + c.pendingCost cost) := by
  unfold Config.perform at hgood ⊢
  split at hgood
  · rename_i data hact
    simp only [hweighs.effect _ _ _ _ hact, add_assoc]
    rfl
  · cases hgood

private theorem step_weight {weight : S → M} {cost : Op → M} (hweighs : Weighs act sync weight cost)
    {c c' : Config ι Op S ε} (hstep : Step act maxPhase sync spurious c c') (hgood' : c'.failure = none) :
    weight c'.data + c'.pendingCost cost = weight c.data + c.pendingCost cost := by
  cases hstep with
  | free t op rest hfree hplace hnext hgood =>
    rw [perform_weight hweighs hgood']
    exact congrArg _ (sum_pending_update cost c.pending hnext).symm
  | arrive t op rest hsync hplace hnext hgood =>
    have hpending := sum_pending_update cost c.pending hnext
    rw [hweighs.sync op hsync, zero_add] at hpending
    rcases arrive_cases hgood' with heq | heq
    · rw [heq]
      exact congrArg _ hpending.symm
    · rw [heq] at hgood' ⊢
      rw [perform_weight hweighs hgood', hweighs.sync op hsync, zero_add]
      exact congrArg _ hpending.symm
  | notify t hplace hgood => rfl
  | wake t since signalled hplace hmoved hcause hgood => rfl

theorem Steps.conserves {weight : S → M} {cost : Op → M} (hweighs : Weighs act sync weight cost)
    {c c' : Config ι Op S ε} (hrun : Steps act maxPhase sync spurious c c') (hgood : c'.failure = none) :
    weight c'.data + c'.pendingCost cost = weight c.data + c.pendingCost cost := by
  induction hrun with
  | refl => rfl
  | tail _ hlast ih => rw [step_weight hweighs hlast hgood, ih hlast.good]

end Conservation

/-! ### No deadlock, and an end -/

variable (spurious) in
/-- With as many barriers in one script as in the others, some thread can go on as long as one has not
finished, and needs no wakeup without a notification for it. -/
theorem Lockstep.exists_step {script : ι → List Op} {c : Config ι Op S ε} (hc : Lockstep sync script c)
    (hsame : ∀ t u, (script t).countP sync = (script u).countP sync) (hgood : c.failure = none)
    (hc' : ¬ c.Done) : ∃ c', Step act maxPhase sync spurious c c' := by
  by_contra hstuck
  have hnotLast : ∀ t, c.place t ≠ .last := fun t ht => hstuck ⟨_, .notify t ht hgood⟩
  have hplaces : ∀ t, (c.place t = .running ∧ c.pending t = []) ∨ (c.place t).blockedIn c.phase = true := by
    intro t
    cases hplace : c.place t with
    | running =>
      cases hnext : c.pending t with
      | nil => exact .inl ⟨rfl, rfl⟩
      | cons op rest =>
        cases hsync : sync op with
        | false => exact absurd ⟨_, .free t op rest hsync hplace hnext hgood⟩ hstuck
        | true => exact absurd ⟨_, .arrive t op rest hsync hplace hnext hgood⟩ hstuck
    | last => exact absurd hplace (hnotLast t)
    | waiting since signalled =>
      have hle := hc.since_le t since signalled hplace
      rcases hle.eq_or_lt with rfl | hlt
      · exact .inr (by simp [Place.blockedIn])
      · cases signalled with
        | true => exact absurd ⟨_, .wake t since true hplace hlt (.inl rfl) hgood⟩ hstuck
        | false =>
          obtain ⟨u, hu⟩ := hc.notifier t since hplace hlt
          exact absurd hu (hnotLast u)
  have hsome : ∃ t, (c.place t).blockedIn c.phase = true := by
    obtain ⟨t, ht⟩ := not_forall.mp hc'
    exact ⟨t, (hplaces t).resolve_left fun h => ht ⟨h.2, h.1⟩⟩
  obtain ⟨t, ht⟩ := hsome
  -- a thread that has finished would have one barrier fewer than the one asleep
  have hall : ∀ u, (c.place u).blockedIn c.phase = true := by
    intro u
    refine (hplaces u).resolve_left fun ⟨hplace, hnil⟩ => ?_
    obtain ⟨done, hscript, hcount⟩ := hc.passed t
    obtain ⟨done', hscript', hcount'⟩ := hc.passed u
    have heq := hsame t u
    rw [hscript, hscript', List.countP_append, List.countP_append, hcount, hcount', ht, hplace, hnil] at heq
    simp [Place.blockedIn] at heq
    omega
  have hcard : c.blocked = Finset.univ := Finset.eq_univ_of_forall fun u => mem_blocked.mpr (hall u)
  have hlt := hc.entered_lt
  rw [hc.entered, hcard, Finset.card_univ] at hlt
  exact lt_irrefl _ hlt

def Config.work (c : Config ι Op S ε) : Nat :=
  ∑ t, (2 * (c.pending t).length + (c.place t).cost)

private theorem work_lt {c c' : Config ι Op S ε} (t : ι)
    (hothers : ∀ u, u ≠ t → c'.pending u = c.pending u ∧ (c'.place u).cost = (c.place u).cost)
    (hself : 2 * (c'.pending t).length + (c'.place t).cost < 2 * (c.pending t).length + (c.place t).cost) :
    c'.work < c.work := by
  refine Finset.sum_lt_sum (fun u _ => ?_) ⟨t, Finset.mem_univ t, hself⟩
  by_cases hu : u = t
  · subst hu
    exact hself.le
  · rw [(hothers u hu).1, (hothers u hu).2]

private theorem Step.work_lt {c c' : Config ι Op S ε} (hstep : Step act maxPhase sync spurious c c')
    (hgood' : c'.failure = none) : c'.work < c.work ∧ c'.steps = c.steps + 1 := by
  cases hstep with
  | free t op rest hfree hplace hnext hgood =>
    refine ⟨Barrier.work_lt t (fun u hu => by simp [Function.update_of_ne hu]) ?_, by rw [perform_steps]⟩
    simp [hplace, hnext, Place.cost]
  | arrive t op rest hsync hplace hnext hgood =>
    rcases arrive_cases hgood' with heq | heq
    · rw [heq]
      refine ⟨Barrier.work_lt t (fun u hu => by simp [Function.update_of_ne hu]) ?_, rfl⟩
      simp only [Function.update_self, hplace, hnext, Place.cost, List.length_cons]
      omega
    · rw [heq]
      refine ⟨Barrier.work_lt t (fun u hu => by simp [Function.update_of_ne hu]) ?_, by rw [perform_steps]⟩
      simp only [perform_pending, perform_place, Function.update_self, hplace, hnext, Place.cost,
        List.length_cons]
      omega
  | notify t hplace hgood =>
    refine ⟨Barrier.work_lt t (fun u hu => ⟨rfl, ?_⟩) ?_, rfl⟩
    · simp only [Function.update_of_ne hu]
      cases c.place u <;> rfl
    · simp [hplace, Place.cost]
  | wake t since signalled hplace hmoved hcause hgood =>
    refine ⟨Barrier.work_lt t (fun u hu => by simp [Function.update_of_ne hu]) ?_, rfl⟩
    simp [hplace, Place.cost]

theorem Steps.steps_le [Nonempty ι] {script : ι → List Op} {I : Nat → Nat → S → Prop}
    (hrule : PhaseRule act maxPhase sync script I) {data : S} (hstart : I 0 0 data) {c : Config ι Op S ε}
    (hrun : Steps act maxPhase sync spurious (.start script data) c) :
    c.steps + c.work ≤ ∑ t, 2 * (script t).length := by
  induction hrun with
  | refl => simp [Config.start, Config.work, Place.cost]
  | tail hbefore hlast ih =>
    have hgood := (Steps.holds hrule hstart (hbefore.tail hlast)).good
    have := hlast.work_lt hgood
    omega

/-- **Completion.** Every run can be continued until all threads have finished. -/
theorem Steps.completes [Nonempty ι] {script : ι → List Op} {I : Nat → Nat → S → Prop}
    (hrule : PhaseRule act maxPhase sync script I) (hsame : ∀ t u, (script t).countP sync = (script u).countP sync)
    {data : S} (hstart : I 0 0 data) {c : Config ι Op S ε}
    (hrun : Steps act maxPhase sync spurious (.start script data) c) :
    ∃ c', Steps act maxPhase sync spurious c c' ∧ c'.Done := by
  induction hwork : c.work using Nat.strong_induction_on generalizing c with
  | _ work ih =>
    by_cases hdone : c.Done
    · exact ⟨c, .refl, hdone⟩
    · obtain ⟨d, hstep⟩ := hrun.lockstep.exists_step spurious hsame (hrun.holds hrule hstart).good hdone
      have hrun' : Steps act maxPhase sync spurious (.start script data) d := hrun.tail hstep
      have hless := (hstep.work_lt (hrun'.holds hrule hstart).good).1
      obtain ⟨c', hrest, hend⟩ := ih d.work (hwork ▸ hless) hrun' rfl
      exact ⟨c', .head hstep hrest, hend⟩

end Barrier

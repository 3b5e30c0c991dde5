import BenchmarkLibs.Particles.Bounds

/-!
# How long `randF` lasts

`randSeed` starts at 10, counts every call of `randF` and is never reset, so a process can make
`2 ^ 31 - 11` calls before the counter overflows. Up to that many, whoever makes them, each draws one of the
hundred values; the next one is undefined. A run of any particles is compared with the run that an unbounded
counter would give it (`World.run_eq`).
-/

namespace BenchmarkLibs

open Fallible

def initialRandSeed : Int := 10

/-! ### Calls in a row -/

section Calls

variable (F : Type) [Mul F] [OfScientific F] [IntCast F]

/-- `calls` calls of `randF` one after the other, with the values they return. -/
def randFCalls : Nat → Int → Except Fault (List F × Int)
  | 0, randSeed => .ok ([], randSeed)
  | calls + 1, randSeed => do
    let (value, randSeed) ← randF F randSeed
    let (values, randSeed) ← randFCalls calls randSeed
    .ok (value :: values, randSeed)

theorem randFCalls_eq (calls : Nat) {randSeed : Int} (h : randSeed ≤ intMax) :
    randFCalls F calls randSeed = if randSeed + calls ≤ intMax then
      .ok ((List.range calls).map fun i : Nat => randValue F (randSeed + i), randSeed + calls)
      else .error .intOverflow := by
  induction calls generalizing randSeed with
  | zero => simp [randFCalls, h]
  | succ calls ih =>
    rw [randFCalls, randF_bind]
    by_cases hfirst : randSeed < intMax
    · have hcount : randSeed + 1 + (calls : Int) = randSeed + ((calls + 1 : Nat) : Int) := by push_cast; ring
      simp only [if_pos hfirst, ih hfirst, hcount]
      split
      · have hnext : ∀ i : Nat, randSeed + 1 + (i : Int) = randSeed + ((i + 1 : Nat) : Int) := by
          intro i; push_cast; ring
        simp [List.range_succ_eq_map, Function.comp_def, hnext]
      · rfl
    · rw [if_neg hfirst, if_neg (by push_cast; omega)]

end Calls

/-- The first `calls` calls since program start do not overflow, and each returns `0.01 * k` for a `k` between
0 and 99. -/
def CallsInRange (calls : Nat) : Prop :=
  ∃ values randSeed, randFCalls ℚ calls initialRandSeed = .ok (values, randSeed) ∧
    ∀ value ∈ values, ∃ k : Int, 0 ≤ k ∧ k ≤ 99 ∧ value = 0.01 * (k : ℚ)

theorem callsInRange_iff (calls : Nat) : CallsInRange calls ↔ initialRandSeed + calls ≤ intMax := by
  have hrun := randFCalls_eq ℚ calls (by decide : initialRandSeed ≤ intMax)
  constructor
  · rintro ⟨values, randSeed, hok, -⟩
    by_contra hover
    rw [hok, if_neg hover] at hrun
    cases hrun
  · intro hroom
    rw [if_pos hroom] at hrun
    refine ⟨_, _, hrun, fun value hvalue => ?_⟩
    obtain ⟨i, -, rfl⟩ := List.mem_map.mp hvalue
    have hnonneg : 0 ≤ initialRandSeed + (i : Int) := by
      have : 0 ≤ initialRandSeed := by decide
      omega
    refine ⟨(initialRandSeed + i).tmod 100, ?_, ?_, rfl⟩
    · rw [Int.tmod_eq_emod_of_nonneg hnonneg]
      omega
    · rw [Int.tmod_eq_emod_of_nonneg hnonneg]
      omega

/-! ### Set-ups and updates in any mix -/

variable {ι : Type} [DecidableEq ι] {sizes : ι → Nat}

/-- The particles when the program starts, none of them generated. -/
def World.start (particles : ∀ i, TParticle ℚ (sizes i)) : World sizes :=
  ⟨particles, initialRandSeed, fun _ => none⟩

/-- What a call does, if `randSeed` could grow without end. -/
def World.next (w : World sizes) : Action ι → World sizes
  | .generate i => w.bear i ((w.particles i).generated w.randSeed) (w.randSeed + 8)
  | .update i dt =>
    let p := (w.particles i).advance dt
    if p.time < 0.0 then w.bear i (p.generated w.randSeed) (w.randSeed + 8) else w.put i p w.randSeed

/-- The number of calls of `randF` that an action makes. -/
def World.draws (w : World sizes) : Action ι → Nat
  | .generate _ => 8
  | .update i dt => if ((w.particles i).advance dt).time < 0.0 then 8 else 0

def World.calls (w : World sizes) : List (Action ι) → Nat
  | [] => 0
  | action :: actions => w.draws action + (w.next action).calls actions

theorem World.randSeed_next (w : World sizes) (action : Action ι) :
    (w.next action).randSeed = w.randSeed + w.draws action := by
  cases action with
  | generate i => rfl
  | update i dt =>
    simp only [next, draws]
    split
    · rfl
    · exact (add_zero w.randSeed).symm

theorem World.perform_eq (w : World sizes) (action : Action ι) (h : w.randSeed ≤ intMax) :
    w.perform action = if w.randSeed + w.draws action ≤ intMax then .ok (w.next action)
      else .error .intOverflow := by
  cases action with
  | generate i =>
    have hdraws : ((w.draws (.generate i) : Nat) : Int) = 8 := rfl
    rw [hdraws, perform, TParticle.generate_eq]
    by_cases hroom : w.randSeed + 8 ≤ intMax
    · rw [if_pos hroom, if_pos hroom, ok_bind]
      rfl
    · rw [if_neg hroom, if_neg hroom, error_bind]
  | update i dt =>
    simp only [perform, next, draws, TParticle.update]
    by_cases htime : ((w.particles i).advance dt).time < 0.0
    · simp only [if_pos htime, TParticle.generate_eq, Nat.cast_ofNat]
      by_cases hroom : w.randSeed + 8 ≤ intMax
      · simp only [if_pos hroom, ok_bind]
      · simp only [if_neg hroom, error_bind]
    · simp only [if_neg htime, Nat.cast_zero, add_zero, if_pos h, ok_bind]

/-- A run is the run with an unbounded counter, unless that passes the greatest `int`. -/
theorem World.run_eq : ∀ (actions : List (Action ι)) (w : World sizes), w.randSeed ≤ intMax →
    w.run actions = if w.randSeed + w.calls actions ≤ intMax then .ok (actions.foldl World.next w)
      else .error .intOverflow := by
  intro actions
  induction actions with
  | nil =>
    intro w h
    simp only [calls, Nat.cast_zero, add_zero, if_pos h]
    rfl
  | cons action actions ih =>
    intro w h
    have hseed := w.randSeed_next action
    rw [run, List.foldlM_cons, w.perform_eq action h, calls, List.foldl_cons]
    push_cast
    by_cases hfirst : w.randSeed + w.draws action ≤ intMax
    · have hrest := ih (w.next action) (hseed ▸ hfirst)
      rw [hseed, add_assoc] at hrest
      rw [if_pos hfirst, ok_bind]
      exact hrest
    · rw [if_neg hfirst, if_neg (by omega)]
      rfl

/-- What every action keeps, whatever its time step: a particle that has been generated was generated within
the bounds. -/
structure World.Drawn (w : World sizes) : Prop where
  randSeed : 0 ≤ w.randSeed
  latest : ∀ i born, w.latest i = some born → born.Fresh

theorem World.Drawn.perform {w w' : World sizes} {action : Action ι} (h : w.Drawn)
    (hstep : w.perform action = .ok w') : w'.Drawn := by
  refine ⟨h.randSeed.trans (World.randSeed_perform hstep), fun j born hborn => ?_⟩
  obtain ⟨q, rfl, -⟩ | ⟨hbefore, -⟩ := World.latest_perform hstep hborn
  · exact TParticle.fresh_generated q h.randSeed
  · exact h.latest j born hbefore

theorem World.Drawn.run {w w' : World sizes} {actions : List (Action ι)} (h : w.Drawn)
    (hrun : w.run actions = .ok w') : w'.Drawn :=
  foldlM_preserves (P := World.Drawn) (fun _ _ _ _ hstep hs => hs.perform hstep) hrun h

/-- The run does not overflow, and every `generate` in it leaves a time between 2 and 2.99. -/
def World.InRange (w : World sizes) (actions : List (Action ι)) : Prop :=
  Succeeds (w.run actions) fun _ => ∀ done w', done <+: actions → w.run done = .ok w' →
    ∀ i born, w'.latest i = some born → 2 ≤ born.time ∧ born.time ≤ 2.99

theorem World.start_inRange_iff (particles : ∀ i, TParticle ℚ (sizes i)) (actions : List (Action ι)) :
    (World.start particles).InRange actions ↔
      initialRandSeed + (World.start particles).calls actions ≤ intMax := by
  have hrun := World.run_eq actions (World.start particles) (by decide : initialRandSeed ≤ intMax)
  have hseed : (World.start particles).randSeed = initialRandSeed := rfl
  rw [hseed] at hrun
  constructor
  · rintro ⟨w, hok, -⟩
    by_contra hover
    rw [hok, if_neg hover] at hrun
    cases hrun
  · intro hroom
    rw [if_pos hroom] at hrun
    refine ⟨_, hrun, fun done w' _ hdone i born hborn => ?_⟩
    have hstart : (World.start particles).Drawn := ⟨(by decide : 0 ≤ initialRandSeed), fun i born h => by cases h⟩
    exact ((hstart.run hdone).latest i born hborn).time

/-- `randF` is in range in any number of calls up to `2 ^ 31 - 11` and in no more, and so is every mix of
set-ups and update passes by the number of its calls. -/
theorem randF_inRange_iff :
    (∀ calls : Nat, CallsInRange calls ↔ calls ≤ 2 ^ 31 - 11) ∧
    ∀ (particles : ∀ i, TParticle ℚ (sizes i)) (actions : List (Action ι)),
      (World.start particles).InRange actions ↔ (World.start particles).calls actions ≤ 2 ^ 31 - 11 := by
  have hlimit : ∀ calls : Nat, initialRandSeed + (calls : Int) ≤ intMax ↔ calls ≤ 2 ^ 31 - 11 := by
    intro calls
    rw [initialRandSeed, intMax]
    omega
  exact ⟨fun calls => (callsInRange_iff calls).trans (hlimit calls),
    fun particles actions => (World.start_inRange_iff particles actions).trans (hlimit _)⟩

theorem World.calls_replicate_generate (i : ι) (count : Nat) (w : World sizes) :
    w.calls (List.replicate count (.generate i)) = 8 * count := by
  induction count generalizing w with
  | zero => rfl
  | succ count ih =>
    rw [List.replicate_succ, calls, ih, draws]
    omega

/-- Call number `2 ^ 31 - 10` overflows, and 268435455 particles cannot be generated in one process. -/
theorem randF_overflows : ¬ CallsInRange (2 ^ 31 - 10) ∧
    ¬ (World.start fun _ : Unit => TParticle.zero ℚ 1).InRange (List.replicate 268435455 (.generate ())) := by
  rw [callsInRange_iff, World.start_inRange_iff, World.calls_replicate_generate]
  decide

end BenchmarkLibs

import BenchmarkLibs.Base.Euler
import BenchmarkLibs.Particles.Particle
import Mathlib

/-!
# Bounds on the state of a particle

With exact arithmetic a particle stays within fixed bounds however long it is updated. No bound is kept by
an update alone: velocities and positions grow until the time left runs out and the particle is generated
anew. What an update keeps is `Life`, which ties each coordinate to the time passed since the particle was
generated; the bounds follow from it because that time is below three.
-/

namespace BenchmarkLibs

open Fallible Euler

/-! ### Draws and coordinates -/

theorem randValue_bounds {randSeed : Int} (h : 0 ≤ randSeed) :
    0 ≤ randValue ℚ randSeed ∧ randValue ℚ randSeed ≤ 0.99 := by
  have hdigit : 0 ≤ randSeed.tmod 100 ∧ randSeed.tmod 100 ≤ 99 := by
    rw [Int.tmod_eq_emod_of_nonneg h]
    omega
  have hlow : (0 : ℚ) ≤ ((randSeed.tmod 100 : Int) : ℚ) := by exact_mod_cast hdigit.1
  have hhigh : ((randSeed.tmod 100 : Int) : ℚ) ≤ 99 := by exact_mod_cast hdigit.2
  rw [randValue]
  constructor
  · positivity
  · linarith

namespace TParticle

variable {BufSize : Nat}

def axis (p : TParticle ℚ BufSize) (i : Fin 4) : Axis ℚ := ⟨p.vel.get i, p.pos.get i⟩

theorem axis_advance (p : TParticle ℚ BufSize) (dt : ℚ) (i : Fin 4) :
    (p.advance dt).axis i = (p.axis i).step (p.acc.get i) dt := by
  simp [axis, advance, Axis.step, Vector.get_eq_getElem]

/-! ### A life of a particle -/

/-- A particle as `generate` leaves it: the fourth velocity is the sum of two others. -/
structure Fresh (p : TParticle ℚ BufSize) : Prop where
  acc : ∀ i : Fin 4, 0 ≤ p.acc.get i ∧ p.acc.get i ≤ 0.99
  vel : ∀ i : Fin 4, 0 ≤ p.vel.get i ∧ p.vel.get i ≤ if i = 3 then 1.98 else 0.99
  pos : ∀ i : Fin 4, p.pos.get i = 0
  rot : p.rot = 0
  time : 2 ≤ p.time ∧ p.time ≤ 2.99

theorem fresh_generated (p : TParticle ℚ BufSize) {randSeed : Int} (h : 0 ≤ randSeed) :
    (p.generated randSeed).Fresh := by
  have hdraw : ∀ k : Int, 0 ≤ k →
      0 ≤ randValue ℚ (randSeed + k) ∧ randValue ℚ (randSeed + k) ≤ 0.99 :=
    fun k hk => randValue_bounds (by omega)
  have hsum := hdraw 5 (by decide)
  have hsum' := hdraw 6 (by decide)
  have hzero : (0.0 : ℚ) = 0 := by norm_num
  refine ⟨fun i => ?_, fun i => ?_, fun i => ?_, ?_, ?_⟩
  · fin_cases i
    · exact hdraw 0 (by decide)
    · exact hdraw 1 (by decide)
    · exact hdraw 2 (by decide)
    · exact hdraw 3 (by decide)
  · fin_cases i
    · exact hdraw 4 (by decide)
    · exact hdraw 5 (by decide)
    · exact hdraw 6 (by decide)
    · change 0 ≤ randValue ℚ (randSeed + 5) + randValue ℚ (randSeed + 6) ∧
        randValue ℚ (randSeed + 5) + randValue ℚ (randSeed + 6) ≤ 1.98
      constructor
      · linarith
      · linarith
  · fin_cases i <;> exact hzero
  · exact hzero
  · have hlife := hdraw 7 (by decide)
    simp only [generated]
    constructor
    · linarith
    · linarith

/-- The particle since it was generated as `born`: its accelerations are those it was born with, and each
coordinate has coasted for the time that is gone. -/
structure Life (born p : TParticle ℚ BufSize) : Prop where
  acc : p.acc = born.acc
  time : 0 ≤ p.time ∧ p.time ≤ born.time
  coasting : ∀ i : Fin 4, Coasting (born.acc.get i) (born.vel.get i) (born.time - p.time) (p.axis i)
  rot : p.rot = p.pos.get 3

theorem Life.start {born : TParticle ℚ BufSize} (h : born.Fresh) : Life born born where
  acc := rfl
  time := ⟨by linarith [h.time.1], le_rfl⟩
  coasting i := by
    rw [sub_self, axis, h.pos i]
    exact .start
  rot := h.rot.trans (h.pos 3).symm

/-- An update that leaves time keeps the particle in its life. -/
theorem Life.advance {born p : TParticle ℚ BufSize} (h : Life born p) (hborn : born.Fresh) {dt : ℚ}
    (hdt : 0 < dt) (htime : ¬ (p.advance dt).time < 0.0) : Life born (p.advance dt) where
  acc := h.acc
  time := by
    have htime' : (p.advance dt).time = p.time - dt := rfl
    rw [htime'] at htime ⊢
    norm_num at htime
    exact ⟨by linarith, by linarith [h.time.2]⟩
  coasting i := by
    have helapsed : born.time - (p.advance dt).time = born.time - p.time + dt := by
      simp only [TParticle.advance]
      ring
    rw [axis_advance, helapsed, h.acc]
    exact (h.coasting i).step (hborn.acc i).1 (hborn.vel i).1 (by linarith [h.time.2]) hdt.le
  rot := by simp [TParticle.advance, h.rot, Vector.get_eq_getElem]

/-- The bounds of a state, and what it shares with the state the particle was last generated in. -/
structure Bounded (born p : TParticle ℚ BufSize) : Prop where
  time : 0 ≤ p.time ∧ p.time < 3
  rot : p.rot = p.pos.get 3
  balance : ∀ i : Fin 4, p.vel.get i + p.acc.get i * p.time = born.vel.get i + born.acc.get i * born.time
  vel : ∀ i : Fin 4, 0 ≤ p.vel.get i ∧ p.vel.get i < if i = 3 then 5 else 4
  pos : ∀ i : Fin 4, 0 ≤ p.pos.get i ∧ p.pos.get i < if i = 3 then 15 else 12

theorem Life.bounded {born p : TParticle ℚ BufSize} (h : Life born p) (hborn : born.Fresh) :
    Bounded born p := by
  have helapsed : 0 ≤ born.time - p.time ∧ born.time - p.time ≤ 2.99 :=
    ⟨by linarith [h.time.2], by linarith [h.time.1, hborn.time.2]⟩
  have hbounds := fun i => (h.coasting i).bounds (hborn.acc i) (hborn.vel i) helapsed
  have hvelocity : ∀ i : Fin 4, p.vel.get i = born.vel.get i + born.acc.get i * (born.time - p.time) :=
    fun i => (h.coasting i).velocity
  refine ⟨⟨h.time.1, by linarith [h.time.2, hborn.time.2]⟩, h.rot, fun i => ?_, fun i => ⟨?_, ?_⟩,
    fun i => ⟨(h.coasting i).nonneg, ?_⟩⟩
  · rw [hvelocity, h.acc]
    ring
  · exact (h.coasting i).velocity_nonneg (hborn.acc i).1 (hborn.vel i).1 helapsed.1
  · refine (hbounds i).1.trans_lt ?_
    split <;> norm_num
  · refine (hbounds i).2.trans_lt ?_
    split <;> norm_num

end TParticle

/-! ### Many particles that share `randSeed` -/

variable {ι : Type} [DecidableEq ι]

/-- Particles of various buffer sizes, and with each the state it was in after its latest `generate`, which
is no part of the program. -/
structure World (sizes : ι → Nat) where
  particles : ∀ i, TParticle ℚ (sizes i)
  randSeed : Int
  latest : ∀ i, Option (TParticle ℚ (sizes i))

inductive Action (ι : Type)
  | generate (i : ι)
  | update (i : ι) (dt : ℚ)

variable {sizes : ι → Nat}

def World.put (w : World sizes) (i : ι) (p : TParticle ℚ (sizes i)) (randSeed : Int) : World sizes :=
  { w with particles := Function.update w.particles i p, randSeed := randSeed }

def World.bear (w : World sizes) (i : ι) (p : TParticle ℚ (sizes i)) (randSeed : Int) : World sizes :=
  { w.put i p randSeed with latest := Function.update w.latest i (some p) }

/-- One call. An `update` ends with a `generate` when the time left has become negative. -/
def World.perform (w : World sizes) : Action ι → Except Fault (World sizes)
  | .generate i => do
    let (p, randSeed) ← (w.particles i).generate w.randSeed
    .ok (w.bear i p randSeed)
  | .update i dt => do
    let (p, randSeed) ← (w.particles i).update dt w.randSeed
    .ok (if ((w.particles i).advance dt).time < 0.0 then w.bear i p randSeed else w.put i p randSeed)

def World.run (w : World sizes) (actions : List (Action ι)) : Except Fault (World sizes) :=
  actions.foldlM World.perform w

theorem World.perform_succeeds (w : World sizes) (action : Action ι) (h : w.randSeed + 8 ≤ intMax) :
    Succeeds (w.perform action) (·.randSeed ≤ w.randSeed + 8) := by
  cases action with
  | generate i => exact (TParticle.generate_succeeds _ h).bind fun _ ha => .ok ha
  | update i dt =>
    refine (TParticle.update_succeeds dt _ h).bind fun _ ha => .ok ?_
    split <;> exact ha

theorem World.run_succeeds (w : World sizes) (actions : List (Action ι))
    (h : w.randSeed + 8 * actions.length ≤ intMax) : Succeeds (w.run actions) fun _ => True := by
  refine (Succeeds.foldlM (fun rest w => w.randSeed + 8 * (rest.length : Int) ≤ intMax) h ?_).imp fun _ _ => trivial
  intro action rest w hw
  rw [List.length_cons] at hw
  push_cast at hw
  exact (w.perform_succeeds action (by omega)).imp fun w' hw' => by omega

/-- A call that succeeds generates its particle anew, or is an update that leaves it time. -/
theorem World.perform_cases {w w' : World sizes} {action : Action ι} (h : w.perform action = .ok w') :
    (∃ i q, (action = .generate i ∨ ∃ dt, action = .update i dt) ∧
      w' = w.bear i (TParticle.generated q w.randSeed) (w.randSeed + 8)) ∨
    ∃ i dt, action = .update i dt ∧ ¬ ((w.particles i).advance dt).time < 0.0 ∧
      w' = w.put i ((w.particles i).advance dt) w.randSeed := by
  cases action with
  | generate i =>
    simp only [perform, TParticle.generate_eq] at h
    split_ifs at h
    · cases h
      exact .inl ⟨i, w.particles i, .inl rfl, rfl⟩
    · cases h
  | update i dt =>
    simp only [perform, TParticle.update] at h
    by_cases htime : ((w.particles i).advance dt).time < 0.0
    · simp only [if_pos htime, TParticle.generate_eq] at h
      split_ifs at h
      · cases h
        exact .inl ⟨i, (w.particles i).advance dt, .inr ⟨dt, rfl⟩, rfl⟩
      · cases h
    · simp only [if_neg htime, ok_bind] at h
      cases h
      exact .inr ⟨i, dt, rfl, htime, rfl⟩

theorem World.randSeed_perform {w w' : World sizes} {action : Action ι} (h : w.perform action = .ok w') :
    w.randSeed ≤ w'.randSeed := by
  obtain ⟨i, q, -, rfl⟩ | ⟨i, dt, -, -, rfl⟩ := World.perform_cases h
  · simp only [World.bear, World.put]
    omega
  · exact le_rfl

/-- A particle that has been generated after a call was generated in that call, or before it; in the second
case the call leaves it alone or is an update of it that leaves it time. -/
theorem World.latest_perform {w w' : World sizes} {action : Action ι} (h : w.perform action = .ok w') {j : ι}
    {born : TParticle ℚ (sizes j)} (hborn : w'.latest j = some born) :
    (∃ q, born = TParticle.generated q w.randSeed ∧ w'.particles j = born) ∨
    w.latest j = some born ∧ (w'.particles j = w.particles j ∨ ∃ dt, action = .update j dt ∧
      ¬ ((w.particles j).advance dt).time < 0.0 ∧ w'.particles j = (w.particles j).advance dt) := by
  obtain ⟨i, q, -, rfl⟩ | ⟨i, dt, rfl, htime, rfl⟩ := World.perform_cases h
  · by_cases hij : j = i
    · subst hij
      simp only [World.bear, World.put, Function.update_self, Option.some.injEq] at hborn ⊢
      exact .inl ⟨q, hborn.symm, hborn⟩
    · simp only [World.bear, World.put, Function.update_of_ne hij] at hborn
      exact .inr ⟨hborn, .inl (Function.update_of_ne hij _ _)⟩
  · by_cases hij : j = i
    · subst hij
      exact .inr ⟨hborn, .inr ⟨dt, rfl, htime, Function.update_self _ _ _⟩⟩
    · exact .inr ⟨hborn, .inl (Function.update_of_ne hij _ _)⟩

/-- Every particle that has been generated is in the life that its latest `generate` began. -/
structure World.Inv (w : World sizes) : Prop where
  randSeed : 0 ≤ w.randSeed
  lives : ∀ i born, w.latest i = some born → born.Fresh ∧ TParticle.Life born (w.particles i)

theorem World.Inv.perform {w w' : World sizes} {action : Action ι} (h : w.Inv)
    (hdt : ∀ i dt, action = .update i dt → 0 < dt) (hstep : w.perform action = .ok w') : w'.Inv := by
  refine ⟨h.randSeed.trans (World.randSeed_perform hstep), fun j born hborn => ?_⟩
  obtain ⟨q, rfl, hparticle⟩ | ⟨hbefore, hparticle⟩ := World.latest_perform hstep hborn
  · have hfresh := TParticle.fresh_generated q h.randSeed
    rw [hparticle]
    exact ⟨hfresh, .start hfresh⟩
  · obtain ⟨hfresh, hlife⟩ := h.lives j born hbefore
    obtain hsame | ⟨dt, haction, htime, hadvanced⟩ := hparticle
    · rw [hsame]
      exact ⟨hfresh, hlife⟩
    · rw [hadvanced]
      exact ⟨hfresh, hlife.advance hfresh (hdt j dt haction) htime⟩

theorem World.Inv.run {w w' : World sizes} {actions : List (Action ι)} (h : w.Inv)
    (hdt : ∀ i dt, .update i dt ∈ actions → 0 < dt) (hrun : w.run actions = .ok w') : w'.Inv :=
  foldlM_preserves (P := World.Inv)
    (fun _ ha _ _ hstep hs => hs.perform (fun i dt heq => hdt i dt (heq ▸ ha)) hstep) hrun h

theorem World.latest_isSome {i : ι} : ∀ {actions : List (Action ι)} {w w' : World sizes},
    w.run actions = .ok w' → .generate i ∈ actions ∨ (w.latest i).isSome → (w'.latest i).isSome := by
  intro actions
  induction actions with
  | nil =>
    intro w w' hrun h
    cases hrun
    simpa using h
  | cons action actions ih =>
    intro w w' hrun h
    rw [World.run, List.foldlM_cons] at hrun
    obtain ⟨w₁, hstep, hrun⟩ := bind_eq_ok.mp hrun
    refine ih hrun ?_
    rw [List.mem_cons, or_assoc] at h
    obtain ⟨j, q, hsubject, rfl⟩ | ⟨j, dt, rfl, -, rfl⟩ := World.perform_cases hstep
    · by_cases hij : i = j
      · subst hij
        exact .inr (by simp [World.bear])
      · simp only [World.bear, Function.update_of_ne hij]
        rcases h with rfl | h
        · obtain h | ⟨dt, h⟩ := hsubject
          · exact absurd (Action.generate.inj h) hij
          · cases h
        · exact h
    · rcases h with h | h
      · cases h
      · exact h

/-- However long the particles run, in whatever order and with whatever time steps, each one that has been
generated is within the bounds, and has the sum of velocity and acceleration times time left that it had
when it was generated last. -/
theorem particles_bounded (start : World sizes) (hseed : 0 ≤ start.randSeed)
    (hstart : ∀ i, start.latest i = none) (actions : List (Action ι))
    (hdt : ∀ i dt, .update i dt ∈ actions → 0 < dt) (w : World sizes) (hrun : start.run actions = .ok w) :
    (∀ i, .generate i ∈ actions → ∃ born, w.latest i = some born) ∧
    ∀ i born, w.latest i = some born → TParticle.Bounded born (w.particles i) := by
  have hinv : start.Inv := ⟨hseed, fun i born hborn => by rw [hstart i] at hborn; cases hborn⟩
  refine ⟨fun i hi => ?_, fun i born hborn => ?_⟩
  · exact Option.isSome_iff_exists.mp (World.latest_isSome hrun (.inl hi))
  · obtain ⟨hfresh, hlife⟩ := (hinv.run hdt hrun).lives i born hborn
    exact hlife.bounded hfresh

theorem particles_bounded_two :
    ∃ w : World fun _ : Bool => 1,
      World.run ⟨fun _ => .zero ℚ 1, 10, fun _ => none⟩
        [.generate true, .generate false, .update true 3, .update false (1 / 60)] = .ok w ∧
      ∃ born, w.latest true = some born ∧ TParticle.Bounded born (w.particles true) := by
  have hroom : (10 : Int) + 8 * ((4 : Nat) : Int) ≤ intMax := by decide
  obtain ⟨w, hrun, -⟩ := World.run_succeeds
    (⟨fun _ => .zero ℚ 1, 10, fun _ => none⟩ : World fun _ : Bool => 1)
    [.generate true, .generate false, .update true 3, .update false (1 / 60)] hroom
  have h := particles_bounded _ (by decide) (fun _ => rfl) _ (by simp) w hrun
  obtain ⟨born, hborn⟩ := h.1 true (by simp)
  exact ⟨w, hrun, born, hborn, h.2 true born hborn⟩

end BenchmarkLibs

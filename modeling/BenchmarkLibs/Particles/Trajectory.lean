import BenchmarkLibs.Particles.Bounds

/-!
# One life of a particle in closed form

Between two calls of `generate` a particle moves by semi-implicit Euler steps. For updates of one length the
state after any number of them is known (`ClosedForm`), as long as the time left has not become negative;
the update in which it does is the one that generates the particle anew.
-/

namespace BenchmarkLibs

open Fallible Euler

def deltaTime : ℚ := 1.0 / 60.0

namespace TParticle

/-- `calls` calls of `update(dt)`. Other particles may draw in between, so call `k` finds `randSeed` at
`seeds k`. The second result is the number of values that the calls have drawn. -/
def updateTimes {F : Type} [Add F] [Sub F] [Mul F] [LT F] [DecidableLT F] [OfScientific F] [IntCast F]
    {BufSize : Nat} (dt : F) (seeds : Nat → Int) (p : TParticle F BufSize) :
    Nat → Except Fault (TParticle F BufSize × Int)
  | 0 => .ok (p, 0)
  | calls + 1 => do
    let (p, drawn) ← updateTimes dt seeds p calls
    let (p, randSeed) ← p.update dt (seeds calls)
    .ok (p, drawn + (randSeed - seeds calls))

variable {BufSize : Nat}

/-- The state after `k` updates by `dt` of a particle that was generated as `born`. -/
structure ClosedForm (born : TParticle ℚ BufSize) (dt : ℚ) (k : Nat) (p : TParticle ℚ BufSize) : Prop where
  vel : ∀ i : Fin 4, p.vel.get i = born.vel.get i + k * dt * born.acc.get i
  pos : ∀ i : Fin 4, p.pos.get i = k * dt * born.vel.get i + dt * dt * born.acc.get i * (k * (k + 1) / 2)
  rot : p.rot = p.pos.get 3
  time : p.time = born.time - k * dt
  acc : p.acc = born.acc
  col : 1 ≤ k → ∀ i : Fin 4, p.col.get i = p.pos.get i / 1000

theorem ClosedForm.start {born : TParticle ℚ BufSize} (hpos : ∀ i : Fin 4, born.pos.get i = 0)
    (hrot : born.rot = 0) (dt : ℚ) : ClosedForm born dt 0 born where
  vel i := by simp
  pos i := by simp [hpos i]
  rot := by rw [hrot, hpos]
  time := by simp
  acc := rfl
  col h := absurd h (by decide)

theorem ClosedForm.advance {born p : TParticle ℚ BufSize} {dt : ℚ} {k : Nat} (h : ClosedForm born dt k p) :
    ClosedForm born dt (k + 1) (p.advance dt) := by
  have haxis : ∀ i : Fin 4, (p.advance dt).axis i
      = Axis.after ⟨born.vel.get i, 0⟩ (born.acc.get i) dt (k + 1) := by
    intro i
    have hbefore : p.axis i = Axis.after ⟨born.vel.get i, 0⟩ (born.acc.get i) dt k := by
      simp only [axis, Axis.after, h.vel i, h.pos i, zero_add]
    rw [axis_advance, hbefore, h.acc, Axis.step_after]
  refine ⟨fun i => ?_, fun i => ?_, ?_, ?_, h.acc, fun _ i => ?_⟩
  · exact congrArg Axis.velocity (haxis i)
  · have hposition : (p.advance dt).pos.get i = _ := congrArg Axis.position (haxis i)
    rw [hposition, Axis.after]
    simp only [zero_add]
  · simp [TParticle.advance, h.rot, Vector.get_eq_getElem]
  · simp only [TParticle.advance, h.time, Nat.cast_add, Nat.cast_one]
    ring
  · simp only [TParticle.advance, Vector.get_eq_getElem, Vector.getElem_ofFn]
    norm_num
    ring

/-- A particle as `generate` leaves it, for any value of `randSeed`. -/
structure Newborn (born : TParticle ℚ BufSize) : Prop where
  pos : ∀ i : Fin 4, born.pos.get i = 0
  rot : born.rot = 0
  time : 0 ≤ born.time

theorem newborn_of_generate {p born : TParticle ℚ BufSize} {randSeed randSeed' : Int}
    (h : p.generate randSeed = .ok (born, randSeed')) : born = p.generated randSeed ∧ Newborn born := by
  rw [generate_eq] at h
  split_ifs at h
  obtain ⟨rfl, -⟩ := Prod.mk.inj (Except.ok.inj h)
  have hzero : (0.0 : ℚ) = 0 := by norm_num
  refine ⟨rfl, fun i => ?_, hzero, ?_⟩
  · fin_cases i <;> exact hzero
  · -- a negative `randSeed` draws a negative number, of less than one
    have hdigit : -100 < (randSeed + 7).tmod 100 := Int.lt_tmod_of_pos _ (by decide)
    have hlow : (-100 : ℚ) < (((randSeed + 7).tmod 100 : Int) : ℚ) := by exact_mod_cast hdigit
    simp only [generated, randValue]
    linarith

/-- While time is left, updates draw nothing and the state is the closed form. -/
theorem updateTimes_closedForm {born : TParticle ℚ BufSize} (hborn : Newborn born) {dt : ℚ} (hdt : 0 < dt)
    (seeds : Nat → Int) (k : Nat) (hk : k * dt ≤ born.time) :
    Succeeds (updateTimes dt seeds born k) fun (p, drawn) => drawn = 0 ∧ ClosedForm born dt k p := by
  induction k with
  | zero => exact .ok ⟨rfl, .start hborn.pos hborn.rot dt⟩
  | succ k ih =>
    push_cast at hk
    refine (ih (by linarith)).bind fun (p, drawn) ⟨hdrawn, hform⟩ => ?_
    have hnext := hform.advance
    have htime : ¬ (p.advance dt).time < 0.0 := by
      rw [hnext.time]
      push_cast
      norm_num
      linarith
    simp only [update, if_neg htime, ok_bind]
    exact .ok ⟨by rw [hdrawn]; simp, hnext⟩

/-- The update after the last one that leaves time calls `generate`. -/
theorem ClosedForm.update_generates {born p : TParticle ℚ BufSize} {dt : ℚ} {k : Nat}
    (h : ClosedForm born dt k p) (hk : born.time < (k + 1) * dt) (randSeed : Int) :
    p.update dt randSeed = (p.advance dt).generate randSeed := by
  have htime : (p.advance dt).time < 0.0 := by
    rw [h.advance.time]
    push_cast
    norm_num
    linarith
  simp only [update, if_pos htime]

end TParticle

theorem lifetime_bounds {time : ℚ} (hlow : 2 ≤ time) (hhigh : time ≤ 2.99) :
    121 ≤ ⌊time / deltaTime⌋₊ + 1 ∧ ⌊time / deltaTime⌋₊ + 1 ≤ 180 := by
  have hupdates : time / deltaTime = time * 60 := by
    have hvalue : deltaTime = 1 / 60 := by norm_num [deltaTime]
    rw [hvalue]
    ring
  rw [hupdates]
  have hleast : 120 ≤ ⌊time * 60⌋₊ := Nat.le_floor (by push_cast; linarith)
  have hmost : ⌊time * 60⌋₊ < 180 := (Nat.floor_lt (by linarith)).mpr (by push_cast; linarith)
  omega

/-- A particle moves by the closed form as long as its time lasts, and update number `⌊time / dt⌋ + 1` is the
first that generates it anew: with `DELTA_TIME` one of the updates 121 to 180. -/
theorem particleLife_closedForm {BufSize : Nat} (p born : TParticle ℚ BufSize) (randSeed randSeed' : Int)
    (hborn : p.generate randSeed = .ok (born, randSeed')) (dt : ℚ) (hdt : 0 < dt) (seeds : Nat → Int) :
    (∀ k : Nat, k * dt ≤ born.time →
      Succeeds (born.updateTimes dt seeds k) fun (q, drawn) => drawn = 0 ∧ TParticle.ClosedForm born dt k q) ∧
    Succeeds (born.updateTimes dt seeds ⌊born.time / dt⌋₊) (fun (q, drawn) =>
      drawn = 0 ∧ ∀ seed, q.update dt seed = (q.advance dt).generate seed) ∧
    (0 ≤ randSeed → dt = deltaTime → 121 ≤ ⌊born.time / dt⌋₊ + 1 ∧ ⌊born.time / dt⌋₊ + 1 ≤ 180) := by
  obtain ⟨hgenerated, hnewborn⟩ := TParticle.newborn_of_generate hborn
  have hclosed := TParticle.updateTimes_closedForm hnewborn hdt seeds
  refine ⟨hclosed, ?_, ?_⟩
  · have hlast : (⌊born.time / dt⌋₊ : ℚ) * dt ≤ born.time :=
      (le_div_iff₀ hdt).mp (Nat.floor_le (div_nonneg hnewborn.time hdt.le))
    have hnext : born.time < (⌊born.time / dt⌋₊ + 1) * dt := (div_lt_iff₀ hdt).mp (Nat.lt_floor_add_one _)
    exact (hclosed _ hlast).imp fun (q, drawn) h => ⟨h.1, fun seed => h.2.update_generates hnext seed⟩
  · rintro hseed rfl
    have hfresh := TParticle.fresh_generated p hseed
    rw [← hgenerated] at hfresh
    exact lifetime_bounds hfresh.time.1 hfresh.time.2

theorem particleLife_closedForm_first :
    ∃ (born : TParticle ℚ 1) (randSeed : Int), (TParticle.zero ℚ 1).generate 10 = .ok (born, randSeed) ∧
      (121 ≤ ⌊born.time / deltaTime⌋₊ + 1 ∧ ⌊born.time / deltaTime⌋₊ + 1 ≤ 180) ∧
      Succeeds (born.updateTimes deltaTime (fun _ => randSeed) ⌊born.time / deltaTime⌋₊) fun (q, drawn) =>
        drawn = 0 ∧ ∀ seed, q.update deltaTime seed = (q.advance deltaTime).generate seed := by
  have hdt : 0 < deltaTime := by norm_num [deltaTime]
  obtain ⟨⟨born, randSeed⟩, hborn, -⟩ :=
    TParticle.generate_succeeds (TParticle.zero ℚ 1) (by decide : (10 : Int) + 8 ≤ intMax)
  have h := particleLife_closedForm (TParticle.zero ℚ 1) born 10 randSeed hborn deltaTime hdt fun _ => randSeed
  exact ⟨born, randSeed, hborn, h.2.2 (by decide) rfl, h.2.1⟩

end BenchmarkLibs

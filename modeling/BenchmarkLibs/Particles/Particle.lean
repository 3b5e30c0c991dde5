import BenchmarkLibs.Base.Fallible
import Mathlib.Algebra.Order.Ring.Int

/-!
# Particles

`particles.h` over any type of numbers: `randF` with its global counter, and the two methods of `TParticle`.
The counter is a 32-bit `int` that only grows, so a call can overflow; a `generate` either makes its eight
draws in a row or overflows (`generate_eq`).
-/

namespace BenchmarkLibs

open Fallible

def intMax : Int := 2 ^ 31 - 1

/-! ### `randF` -/

section Draws

variable {F : Type} [Mul F] [OfScientific F] [IntCast F]

/-- `0.01f*(float)(randSeed % 100)`; the remainder has the sign of `randSeed`. -/
def randValue (F : Type) [Mul F] [OfScientific F] [IntCast F] (randSeed : Int) : F :=
  (0.01 : F) * ((randSeed.tmod 100 : Int) : F)

/-- `randF`, with the value of `randSeed` after it. -/
def randF (F : Type) [Mul F] [OfScientific F] [IntCast F] (randSeed : Int) : Except Fault (F × Int) :=
  if randSeed < intMax then .ok (randValue F randSeed, randSeed + 1) else .error .intOverflow

theorem randValue_congr {s t : Int} (hs : 0 ≤ s) (ht : 0 ≤ t) (h : s % 100 = t % 100) :
    randValue F s = randValue F t := by
  rw [randValue, randValue, Int.tmod_eq_emod_of_nonneg hs, Int.tmod_eq_emod_of_nonneg ht, h]

theorem randF_bind {α : Type} (randSeed : Int) (f : F × Int → Except Fault α) :
    (randF F randSeed >>= f)
      = if randSeed < intMax then f (randValue F randSeed, randSeed + 1) else .error .intOverflow := by
  rw [randF]
  split
  · rfl
  · rfl

end Draws

/-! ### `TParticle` -/

structure TParticle (F : Type) (BufSize : Nat) where
  pos : Vector F 4
  acc : Vector F 4
  vel : Vector F 4
  col : Vector F 4
  rot : F
  time : F
  buf : Vector F BufSize

namespace TParticle

variable {F : Type} [Add F] [Mul F] [OfScientific F] [IntCast F] {BufSize : Nat}

/-- A value-initialized object, as `std::vector` and `std::make_shared` make it. -/
def zero (F : Type) [OfScientific F] (BufSize : Nat) : TParticle F BufSize where
  pos := .replicate 4 0.0
  acc := .replicate 4 0.0
  vel := .replicate 4 0.0
  col := .replicate 4 0.0
  rot := 0.0
  time := 0.0
  buf := .replicate BufSize 0.0

/-- `TParticle::generate`. -/
def generate (p : TParticle F BufSize) (randSeed : Int) : Except Fault (TParticle F BufSize × Int) := do
  let (acc0, randSeed) ← randF F randSeed
  let (acc1, randSeed) ← randF F randSeed
  let (acc2, randSeed) ← randF F randSeed
  let (acc3, randSeed) ← randF F randSeed
  let (vel0, randSeed) ← randF F randSeed
  let (vel1, randSeed) ← randF F randSeed
  let (vel2, randSeed) ← randF F randSeed
  let (life, randSeed) ← randF F randSeed
  .ok ({ p with
    acc := #v[acc0, acc1, acc2, acc3]
    pos := #v[0.0, 0.0, 0.0, 0.0]
    vel := #v[vel0, vel1, vel2, vel1 + vel2]
    rot := 0.0
    time := 2.0 + life }, randSeed)

/-- The particle that eight draws in a row make, from the value `randSeed` on. -/
def generated (p : TParticle F BufSize) (randSeed : Int) : TParticle F BufSize :=
  let draw (k : Int) : F := randValue F (randSeed + k)
  { p with
    acc := #v[draw 0, draw 1, draw 2, draw 3]
    pos := #v[0.0, 0.0, 0.0, 0.0]
    vel := #v[draw 4, draw 5, draw 6, draw 5 + draw 6]
    rot := 0.0
    time := 2.0 + draw 7 }

theorem generate_eq (p : TParticle F BufSize) (randSeed : Int) :
    p.generate randSeed = if randSeed + 8 ≤ intMax then .ok (p.generated randSeed, randSeed + 8)
      else .error .intOverflow := by
  simp only [generate, randF_bind, Int.add_assoc, Int.reduceAdd]
  by_cases h : randSeed + 8 ≤ intMax
  · have hroom : ∀ k : Int, k < 8 → randSeed + k < intMax := fun k hk => by omega
    have hfirst : randSeed < intMax := by omega
    simp only [if_pos h, if_pos hfirst, if_pos (hroom 1 (by decide)), if_pos (hroom 2 (by decide)),
      if_pos (hroom 3 (by decide)), if_pos (hroom 4 (by decide)), if_pos (hroom 5 (by decide)),
      if_pos (hroom 6 (by decide)), if_pos (hroom 7 (by decide))]
    simp only [generated, Int.add_zero]
  · -- where the draws do not all fit, the last of them does not
    have hlast : ¬ randSeed + 7 < intMax := by omega
    simp only [if_neg h, if_neg hlast, ite_self]

theorem generate_succeeds (p : TParticle F BufSize) {randSeed : Int} (h : randSeed + 8 ≤ intMax) :
    Succeeds (p.generate randSeed) (·.2 ≤ randSeed + 8) := by
  rw [generate_eq, if_pos h]
  exact .ok le_rfl

variable [Sub F] [LT F] [DecidableLT F]

/-- `update` up to its test of the time left: each line that the source writes for the indices 0 to 3 is
written once here. -/
def advance (p : TParticle F BufSize) (dt : F) : TParticle F BufSize :=
  let vel : Vector F 4 := .ofFn fun i => p.vel[i] + p.acc[i] * dt
  let pos : Vector F 4 := .ofFn fun i => p.pos[i] + vel[i] * dt
  { acc := p.acc
    vel := vel
    pos := pos
    col := .ofFn fun i => pos[i] * 0.001
    rot := p.rot + vel[3] * dt
    time := p.time - dt
    buf := .ofFn fun i =>
      vel[i.val % 4] + vel[i.val % 4] + vel[2] + pos[0] + pos[1] + pos[i.val % 4] }

/-- `TParticle::update`. -/
def update (dt : F) (p : TParticle F BufSize) (randSeed : Int) : Except Fault (TParticle F BufSize × Int) :=
  let p := p.advance dt
  if p.time < 0.0 then p.generate randSeed else .ok (p, randSeed)

theorem update_succeeds (dt : F) (p : TParticle F BufSize) {randSeed : Int} (h : randSeed + 8 ≤ intMax) :
    Succeeds (p.update dt randSeed) (·.2 ≤ randSeed + 8) := by
  rw [update]
  split
  · exact generate_succeeds _ h
  · exact .ok (by omega)

end TParticle

end BenchmarkLibs

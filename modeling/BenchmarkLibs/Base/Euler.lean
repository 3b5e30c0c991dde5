import Mathlib.Algebra.CharZero.Defs
import Mathlib.Algebra.Field.Defs
import Mathlib.Algebra.Order.Ring.Defs
import Mathlib.Tactic.FieldSimp
import Mathlib.Tactic.Linarith
import Mathlib.Tactic.Ring

/-!
# The semi-implicit Euler step

One coordinate of a body under a constant acceleration: a step changes the velocity first and moves the
position by the new velocity. `Coasting` is what any number of such steps of any lengths keep; it bounds the
velocity and the position by the time that has passed. For steps of one length `Axis.after` is the coordinate
itself.
-/

namespace Euler

structure Axis (K : Type*) where
  velocity : K
  position : K

variable {K : Type*} [CommRing K]

def Axis.step (axis : Axis K) (acceleration dt : K) : Axis K :=
  let velocity := axis.velocity + acceleration * dt
  ⟨velocity, axis.position + velocity * dt⟩

section ClosedForm

variable {L : Type*} [Field L] [CharZero L]

/-- The coordinate after `count` steps of length `dt`. The velocity of each step is that after the step, so
the positions add up to `count * (count + 1) / 2`. -/
def Axis.after (axis : Axis L) (acceleration dt : L) (count : Nat) : Axis L :=
  ⟨axis.velocity + count * dt * acceleration,
    axis.position + count * dt * axis.velocity + dt * dt * acceleration * (count * (count + 1) / 2)⟩

theorem Axis.step_after (axis : Axis L) (acceleration dt : L) (count : Nat) :
    (axis.after acceleration dt count).step acceleration dt = axis.after acceleration dt (count + 1) := by
  simp only [Axis.step, Axis.after, Nat.cast_add, Nat.cast_one, Axis.mk.injEq]
  constructor
  · ring
  · field_simp
    ring

end ClosedForm

variable [LinearOrder K]

/-- The coordinate after steps of a total length of `elapsed`, from velocity `velocity₀` at the origin: the
velocity has grown with the time, and the position is no further than the last velocity would have
brought it. -/
structure Coasting (acceleration velocity₀ elapsed : K) (axis : Axis K) : Prop where
  velocity : axis.velocity = velocity₀ + acceleration * elapsed
  nonneg : 0 ≤ axis.position
  le : axis.position ≤ axis.velocity * elapsed

variable {acceleration velocity₀ elapsed dt : K} {axis : Axis K}

theorem Coasting.start : Coasting acceleration velocity₀ 0 ⟨velocity₀, 0⟩ :=
  ⟨by ring, le_rfl, by simp⟩

variable [IsStrictOrderedRing K]

theorem Coasting.velocity_nonneg (h : Coasting acceleration velocity₀ elapsed axis) (hacc : 0 ≤ acceleration)
    (hvel : 0 ≤ velocity₀) (helapsed : 0 ≤ elapsed) : 0 ≤ axis.velocity := by
  have hgrown : 0 ≤ acceleration * elapsed := mul_nonneg hacc helapsed
  linarith [h.velocity]

theorem Coasting.step (h : Coasting acceleration velocity₀ elapsed axis) (hacc : 0 ≤ acceleration)
    (hvel : 0 ≤ velocity₀) (helapsed : 0 ≤ elapsed) (hdt : 0 ≤ dt) :
    Coasting acceleration velocity₀ (elapsed + dt) (axis.step acceleration dt) := by
  have hnonneg := h.velocity_nonneg hacc hvel helapsed
  have hgain : 0 ≤ acceleration * dt := mul_nonneg hacc hdt
  refine ⟨?_, ?_, ?_⟩
  · simp only [Axis.step, h.velocity]
    ring
  · have hmove : 0 ≤ (axis.velocity + acceleration * dt) * dt := mul_nonneg (by linarith) hdt
    simp only [Axis.step]
    linarith [h.nonneg]
  · -- the old position is behind the old velocity, which is below the new one
    have hfaster : axis.velocity * elapsed ≤ (axis.velocity + acceleration * dt) * elapsed :=
      mul_le_mul_of_nonneg_right (by linarith) helapsed
    simp only [Axis.step, mul_add]
    linarith [h.le]

theorem Coasting.bounds (h : Coasting acceleration velocity₀ elapsed axis) {maxAcc maxVel maxTime : K}
    (hacc : 0 ≤ acceleration ∧ acceleration ≤ maxAcc) (hvel : 0 ≤ velocity₀ ∧ velocity₀ ≤ maxVel)
    (helapsed : 0 ≤ elapsed ∧ elapsed ≤ maxTime) :
    axis.velocity ≤ maxVel + maxAcc * maxTime ∧
    axis.position ≤ (maxVel + maxAcc * maxTime) * maxTime := by
  have hgrown : acceleration * elapsed ≤ maxAcc * maxTime :=
    mul_le_mul hacc.2 helapsed.2 helapsed.1 (hacc.1.trans hacc.2)
  have hvelocity : axis.velocity ≤ maxVel + maxAcc * maxTime := by linarith [h.velocity, hvel.2]
  have hnonneg := h.velocity_nonneg hacc.1 hvel.1 helapsed.1
  refine ⟨hvelocity, h.le.trans ?_⟩
  exact mul_le_mul hvelocity helapsed.2 helapsed.1 (hnonneg.trans hvelocity)

end Euler

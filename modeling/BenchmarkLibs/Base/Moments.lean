import Mathlib.Algebra.BigOperators.Group.List.Basic
import Mathlib.Algebra.Field.Basic
import Mathlib.Algebra.CharZero.Defs
import Mathlib.Tactic.FieldSimp
import Mathlib.Tactic.Ring

/-!
# Central moments of a list

`deviations c k xs` is the sum of the `k`-th powers of the deviations from `c`, and `central k xs` is the
one about the mean. Moving the centre expands by the binomial theorem; since the deviations of the first
power about the mean cancel, the central sums of two lists one after the other are those of the parts and of
the distance of their means (`central_two_append` to `central_four_append`).
-/

namespace Moments

variable {K : Type*} [Field K] [CharZero K]

def deviations (c : K) (k : Nat) (xs : List K) : K := (xs.map fun x => (x - c) ^ k).sum

def mean (xs : List K) : K := xs.sum / xs.length

def central (k : Nat) (xs : List K) : K := deviations (mean xs) k xs

section Deviations

omit [CharZero K]

@[simp] theorem deviations_nil (c : K) (k : Nat) : deviations c k [] = 0 := rfl

@[simp] theorem deviations_cons (c : K) (k : Nat) (x : K) (xs : List K) :
    deviations c k (x :: xs) = (x - c) ^ k + deviations c k xs := by
  simp [deviations]

@[simp] theorem deviations_append (c : K) (k : Nat) (xs ys : List K) :
    deviations c k (xs ++ ys) = deviations c k xs + deviations c k ys := by
  simp [deviations]

theorem deviations_one (c : K) (xs : List K) : deviations c 1 xs = xs.sum - xs.length * c := by
  induction xs with
  | nil => simp
  | cons x xs ih =>
    rw [deviations_cons, ih, List.sum_cons, List.length_cons, Nat.cast_succ]
    ring

/-- Moving the centre by `d`. -/
theorem deviations_two_shift (c d : K) (xs : List K) :
    deviations (c + d) 2 xs = deviations c 2 xs - 2 * d * deviations c 1 xs + d ^ 2 * xs.length := by
  induction xs with
  | nil => simp
  | cons x xs ih =>
    simp only [deviations_cons, ih, List.length_cons, Nat.cast_succ]
    ring

theorem deviations_three_shift (c d : K) (xs : List K) :
    deviations (c + d) 3 xs = deviations c 3 xs - 3 * d * deviations c 2 xs
      + 3 * d ^ 2 * deviations c 1 xs - d ^ 3 * xs.length := by
  induction xs with
  | nil => simp
  | cons x xs ih =>
    simp only [deviations_cons, ih, List.length_cons, Nat.cast_succ]
    ring

theorem deviations_four_shift (c d : K) (xs : List K) :
    deviations (c + d) 4 xs = deviations c 4 xs - 4 * d * deviations c 3 xs
      + 6 * d ^ 2 * deviations c 2 xs - 4 * d ^ 3 * deviations c 1 xs + d ^ 4 * xs.length := by
  induction xs with
  | nil => simp
  | cons x xs ih =>
    simp only [deviations_cons, ih, List.length_cons, Nat.cast_succ]
    ring

end Deviations

/-! ### About the mean -/

theorem length_mul_mean (xs : List K) : xs.length * mean xs = xs.sum := by
  rcases xs with _ | ⟨x, xs⟩
  · simp [mean]
  · have hlength : ((x :: xs).length : K) ≠ 0 := Nat.cast_ne_zero.mpr (by simp)
    rw [mean]
    field_simp

@[simp] theorem central_one (xs : List K) : central 1 xs = 0 := by
  rw [central, deviations_one, length_mul_mean, sub_self]

theorem mean_append (xs ys : List K) :
    mean (xs ++ ys) = (xs.length * mean xs + ys.length * mean ys) / (xs.length + ys.length) := by
  rw [length_mul_mean, length_mul_mean, mean, List.sum_append, List.length_append, Nat.cast_add]

section Append

variable (xs ys : List K) (h : (xs.length : K) + ys.length ≠ 0)

include h

/-- The mean of both lists, from the mean of the first and from that of the second. -/
private theorem mean_append_left :
    mean (xs ++ ys) = mean xs + ys.length * (mean ys - mean xs) / (xs.length + ys.length) := by
  rw [mean_append]
  field_simp
  ring

private theorem mean_append_right :
    mean (xs ++ ys) = mean ys + -(xs.length * (mean ys - mean xs) / (xs.length + ys.length)) := by
  rw [mean_append]
  field_simp
  ring

theorem central_two_append :
    central 2 (xs ++ ys) = central 2 xs + central 2 ys
      + (mean ys - mean xs) ^ 2 * xs.length * ys.length / (xs.length + ys.length) := by
  have hxs := central_one xs
  have hys := central_one ys
  rw [central] at hxs hys
  rw [central, deviations_append]
  nth_rewrite 1 [mean_append_left xs ys h]
  rw [mean_append_right xs ys h, deviations_two_shift, deviations_two_shift, hxs, hys]
  simp only [central]
  field_simp
  ring

theorem central_three_append :
    central 3 (xs ++ ys) = central 3 xs + central 3 ys
      + (mean ys - mean xs) ^ 3 * xs.length * ys.length * (xs.length - ys.length)
        / (xs.length + ys.length) ^ 2
      + 3 * (mean ys - mean xs) * (xs.length * central 2 ys - ys.length * central 2 xs)
        / (xs.length + ys.length) := by
  have hxs := central_one xs
  have hys := central_one ys
  rw [central] at hxs hys
  rw [central, deviations_append]
  nth_rewrite 1 [mean_append_left xs ys h]
  rw [mean_append_right xs ys h, deviations_three_shift, deviations_three_shift, hxs, hys]
  simp only [central]
  field_simp
  ring

theorem central_four_append :
    central 4 (xs ++ ys) = central 4 xs + central 4 ys
      + (mean ys - mean xs) ^ 4 * xs.length * ys.length
        * (xs.length ^ 2 - xs.length * ys.length + ys.length ^ 2) / (xs.length + ys.length) ^ 3
      + 6 * (mean ys - mean xs) ^ 2 * (xs.length ^ 2 * central 2 ys + ys.length ^ 2 * central 2 xs)
        / (xs.length + ys.length) ^ 2
      + 4 * (mean ys - mean xs) * (xs.length * central 3 ys - ys.length * central 3 xs)
        / (xs.length + ys.length) := by
  have hxs := central_one xs
  have hys := central_one ys
  rw [central] at hxs hys
  rw [central, deviations_append]
  nth_rewrite 1 [mean_append_left xs ys h]
  rw [mean_append_right xs ys h, deviations_four_shift, deviations_four_shift, hxs, hys]
  simp only [central]
  field_simp
  ring

end Append

/-! ### One more value -/

omit [CharZero K] in
@[simp] theorem mean_singleton (x : K) : mean [x] = x := by
  simp [mean]

omit [CharZero K] in
@[simp] theorem central_singleton (x : K) (k : Nat) : central (k + 1) [x] = 0 := by
  simp [central]

end Moments

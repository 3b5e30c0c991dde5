import Mathlib.Algebra.Order.Field.Basic
import Mathlib.Algebra.BigOperators.Group.List.Basic
import Mathlib.Tactic.FieldSimp
import Mathlib.Tactic.Ring

/-!
# The best line through a fixed intercept

Of the lines through `(0, b)` the one with the least squared error over some points has the slope
`∑ x (y - b) / ∑ x ^ 2`, and no other is as good.
-/

namespace LeastSquares

variable {K : Type*} [Field K]

def sumSquares (points : List (K × K)) : K := (points.map fun p => p.1 ^ 2).sum

def sumProducts (b : K) (points : List (K × K)) : K := (points.map fun p => p.1 * (p.2 - b)).sum

/-- The squared error of the line with slope `a`. -/
def squaredError (b a : K) (points : List (K × K)) : K := (points.map fun p => (p.2 - (b + a * p.1)) ^ 2).sum

def slope (b : K) (points : List (K × K)) : K := sumProducts b points / sumSquares points

theorem squaredError_expand (b a : K) (points : List (K × K)) :
    squaredError b a points =
      squaredError b 0 points - 2 * a * sumProducts b points + a ^ 2 * sumSquares points := by
  induction points with
  | nil => simp [squaredError, sumProducts, sumSquares]
  | cons p points ih =>
    simp only [squaredError, sumProducts, sumSquares, List.map_cons, List.sum_cons] at ih ⊢
    rw [ih]
    ring

theorem squaredError_eq {points : List (K × K)} (h : sumSquares points ≠ 0) (b a : K) :
    squaredError b a points =
      squaredError b (slope b points) points + sumSquares points * (a - slope b points) ^ 2 := by
  have hslope : slope b points * sumSquares points = sumProducts b points := by
    rw [slope]
    field_simp
  rw [squaredError_expand b a, squaredError_expand b (slope b points), ← hslope]
  ring

variable [LinearOrder K] [IsStrictOrderedRing K]

theorem squaredError_slope_le {points : List (K × K)} (h : 0 < sumSquares points) (b a : K) :
    squaredError b (slope b points) points ≤ squaredError b a points := by
  rw [squaredError_eq h.ne' b a]
  have hsquare : 0 ≤ sumSquares points * (a - slope b points) ^ 2 := mul_nonneg h.le (sq_nonneg _)
  exact le_add_of_nonneg_right hsquare

theorem eq_slope_of_squaredError_le {points : List (K × K)} (h : 0 < sumSquares points) {b a : K}
    (hle : ∀ a', squaredError b a points ≤ squaredError b a' points) : a = slope b points := by
  have hbest := hle (slope b points)
  rw [squaredError_eq h.ne' b a] at hbest
  have hsquare : sumSquares points * (a - slope b points) ^ 2 ≤ 0 := by
    have hcancel : squaredError b (slope b points) points + sumSquares points * (a - slope b points) ^ 2 ≤
        squaredError b (slope b points) points + 0 := by rwa [add_zero]
    exact le_of_add_le_add_left hcancel
  have hzero : (a - slope b points) ^ 2 ≤ 0 := nonpos_of_mul_nonpos_right hsquare h
  exact sub_eq_zero.mp (pow_eq_zero_iff (by decide) |>.mp (le_antisymm hzero (sq_nonneg _)))

end LeastSquares

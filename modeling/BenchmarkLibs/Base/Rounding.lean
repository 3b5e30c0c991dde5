import Mathlib.Algebra.Order.Field.Power
import Mathlib.Algebra.Order.Floor.Ring
import Mathlib.Data.Int.Log
import Mathlib.Tactic.Linarith
import Mathlib.Tactic.Ring

/-!
# Rounding to nearest

Numbers are rounded to integers and to a number of significant binary digits, where a half goes to the even
neighbour. The exponents are not bounded, so this is what floating-point operations do as long as they neither
overflow nor underflow. The error is half a spacing at most, and what has few enough digits is not changed.
-/

namespace Rounding

variable {K : Type*} [Field K] [LinearOrder K] [IsStrictOrderedRing K] [FloorRing K]

/-- The nearest integer. -/
def toInt (x : K) : ℤ :=
  if x - ⌊x⌋ < 1 / ((2 : ℕ) : K) then ⌊x⌋
  else if 1 / ((2 : ℕ) : K) < x - ⌊x⌋ then ⌊x⌋ + 1
  else ⌊x⌋ + ⌊x⌋ % 2

/-- How far the numbers with so many binary digits lie from each other where `x` is. -/
def spacing (digits : ℕ) (x : K) : K :=
  ((2 : ℕ) : K) ^ (Int.log 2 |x| + 1 - digits)

/-- The nearest number with so many binary digits. -/
def toDigits (digits : ℕ) (x : K) : K :=
  toInt (x / spacing digits x) * spacing digits x

omit [IsStrictOrderedRing K] in
theorem toInt_cases (x : K) :
    toInt x = ⌊x⌋ ∧ x - ⌊x⌋ ≤ 1 / ((2 : ℕ) : K) ∨ toInt x = ⌊x⌋ + 1 ∧ 1 / ((2 : ℕ) : K) ≤ x - ⌊x⌋ := by
  rw [toInt]
  split_ifs with hless hgreater
  · exact .inl ⟨rfl, hless.le⟩
  · exact .inr ⟨rfl, hgreater.le⟩
  · -- half way between the two neighbours
    obtain heven | hodd := Int.emod_two_eq_zero_or_one ⌊x⌋
    · exact .inl ⟨by rw [heven, add_zero], not_lt.mp hgreater⟩
    · exact .inr ⟨by rw [hodd], not_lt.mp hless⟩

theorem abs_toInt_sub_le (x : K) : |(toInt x : K) - x| ≤ 1 / ((2 : ℕ) : K) := by
  have hfloor := Int.floor_le x
  have hceil := Int.lt_floor_add_one x
  have htwo : (1 : K) / ((2 : ℕ) : K) + 1 / ((2 : ℕ) : K) = 1 := by norm_num
  rw [abs_le]
  obtain ⟨hint, hle⟩ | ⟨hint, hle⟩ := toInt_cases x
  · rw [hint]
    constructor <;> linarith
  · rw [hint, Int.cast_add, Int.cast_one]
    constructor <;> linarith

theorem toInt_eq {x : K} {n : ℤ} (h : |x - n| < 1 / ((2 : ℕ) : K)) : toInt x = n := by
  have htwo : (1 : K) / ((2 : ℕ) : K) + 1 / ((2 : ℕ) : K) = 1 := by norm_num
  have hnear : |((toInt x - n : ℤ) : K)| < 1 := by
    have htriangle := abs_add_le ((toInt x : K) - x) (x - n)
    have herror := abs_toInt_sub_le x
    rw [sub_add_sub_cancel] at htriangle
    rw [Int.cast_sub]
    linarith
  rw [← Int.cast_abs, ← Int.cast_one, Int.cast_lt, Int.abs_lt_one_iff] at hnear
  exact sub_eq_zero.mp hnear

theorem toInt_intCast (n : ℤ) : toInt (n : K) = n := by
  apply toInt_eq
  rw [sub_self, abs_zero]
  norm_num

omit [IsStrictOrderedRing K] in
theorem toInt_nonneg {x : K} (h : 0 ≤ x) : 0 ≤ toInt x := by
  have hfloor := Int.floor_nonneg.mpr h
  obtain ⟨hint, -⟩ | ⟨hint, -⟩ := toInt_cases x
  · omega
  · omega

theorem spacing_pos (digits : ℕ) (x : K) : 0 < spacing digits x :=
  zpow_pos (by norm_num) _

theorem toDigits_nonneg (digits : ℕ) {x : K} (h : 0 ≤ x) : 0 ≤ toDigits digits x := by
  have hspacing := (spacing_pos digits x).le
  exact mul_nonneg (Int.cast_nonneg (toInt_nonneg (div_nonneg h hspacing))) hspacing

/-- Of a number below a power of two the error is less than that power by the digits and one more. -/
theorem abs_toDigits_sub_le (digits : ℕ) {x : K} {e : ℤ} (h : |x| < ((2 : ℕ) : K) ^ e) :
    |toDigits digits x - x| ≤ ((2 : ℕ) : K) ^ (e - digits - 1) := by
  have htwo : (0 : K) < ((2 : ℕ) : K) := by norm_num
  obtain rfl | hne := eq_or_ne x 0
  · have hzero : toDigits digits (0 : K) = 0 := by
      rw [toDigits, zero_div, ← Int.cast_zero, toInt_intCast, Int.cast_zero, zero_mul]
    rw [hzero, sub_zero, abs_zero]
    exact (zpow_pos htwo _).le
  · have hspacing := spacing_pos digits x
    have hlog : Int.log 2 |x| < e := (Int.lt_zpow_iff_log_lt Nat.one_lt_two (abs_pos.mpr hne)).mp h
    have hle : spacing digits x ≤ ((2 : ℕ) : K) ^ (e - digits) :=
      zpow_le_zpow_right₀ (by norm_num) (by omega)
    have hscaled : toDigits digits x - x =
        (toInt (x / spacing digits x) - x / spacing digits x) * spacing digits x := by
      rw [sub_mul, div_mul_cancel₀ _ hspacing.ne', toDigits]
    calc |toDigits digits x - x|
        = |(toInt (x / spacing digits x) : K) - x / spacing digits x| * spacing digits x := by
          rw [hscaled, abs_mul, abs_of_pos hspacing]
      _ ≤ 1 / ((2 : ℕ) : K) * ((2 : ℕ) : K) ^ (e - digits) :=
          mul_le_mul (abs_toInt_sub_le _) hle hspacing.le (by norm_num)
      _ = ((2 : ℕ) : K) ^ (e - digits - 1) := by
          rw [zpow_sub_one₀ htwo.ne', one_div, mul_comm]

theorem toDigits_natCast {digits n : ℕ} (h : n < 2 ^ digits) : toDigits digits (n : K) = n := by
  have hspacing := spacing_pos digits (n : K)
  have hlog : Nat.log 2 n < digits ∨ n = 0 := by
    obtain rfl | hpos := Nat.eq_zero_or_pos n
    · exact .inr rfl
    · exact .inl (Nat.log_lt_of_lt_pow hpos.ne' h)
  obtain hlog | rfl := hlog
  · -- a multiple of the spacing
    have hwhole : (n : K) / spacing digits (n : K) = ((n * 2 ^ (digits - (Nat.log 2 n + 1)) : ℕ) : ℤ) := by
      have hexponent : (Nat.log 2 n : ℤ) + 1 - digits = -((digits - (Nat.log 2 n + 1) : ℕ) : ℤ) := by omega
      rw [spacing, abs_of_nonneg (Nat.cast_nonneg n), Int.log_natCast, hexponent, zpow_neg, zpow_natCast, div_inv_eq_mul,
        Int.cast_natCast, Nat.cast_mul, Nat.cast_pow]
    rw [toDigits, hwhole, toInt_intCast, ← hwhole, div_mul_cancel₀ _ hspacing.ne']
  · rw [toDigits, Nat.cast_zero, zero_div, ← Int.cast_zero, toInt_intCast, Int.cast_zero, zero_mul]

end Rounding

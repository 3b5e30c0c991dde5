import Mathlib.Algebra.Order.Field.Basic
import Mathlib.Algebra.BigOperators.Group.List.Basic
import Mathlib.Data.Nat.Cast.Basic

/-!
# Numbers with infinities and without

A field completed by what floating-point numbers have beside it, the two infinities and a value that is not a
number, so that a division is always defined. Nothing is rounded, and there is one zero; dividing by it gives the
sign of the dividend.

Numbers that are finite are computed with as in the field (`finite_add` to `finite_div`). Sums do not depend on the
order, and a sum that was divided by how many it is of can be multiplied back (`div_mul_natCast`). The comparison is
transitive, and total but for `nan`.
-/

inductive Extended (K : Type*)
  | finite (x : K)
  | inf (negative : Bool)
  | nan
  deriving DecidableEq

namespace Extended

variable {K : Type*}

section Operations

variable [Field K]

def add : Extended K → Extended K → Extended K
  | nan, _ => nan
  | _, nan => nan
  | finite x, finite y => finite (x + y)
  | finite _, inf negative => inf negative
  | inf negative, finite _ => inf negative
  | inf negative, inf negative' => if negative = negative' then inf negative else nan

def neg : Extended K → Extended K
  | finite x => finite (-x)
  | inf negative => inf (!negative)
  | nan => nan

variable [LinearOrder K]

def mul : Extended K → Extended K → Extended K
  | nan, _ => nan
  | _, nan => nan
  | finite x, finite y => finite (x * y)
  | finite x, inf negative => if x = 0 then nan else inf (decide (x < 0) ^^ negative)
  | inf negative, finite y => if y = 0 then nan else inf (negative ^^ decide (y < 0))
  | inf negative, inf negative' => inf (negative ^^ negative')

def div : Extended K → Extended K → Extended K
  | nan, _ => nan
  | _, nan => nan
  | finite x, finite y => if y = 0 then (if x = 0 then nan else inf (x < 0)) else finite (x / y)
  | finite _, inf _ => finite 0
  | inf negative, finite y => inf (negative ^^ decide (y < 0))
  | inf _, inf _ => nan

end Operations

def le [LinearOrder K] : Extended K → Extended K → Prop
  | finite x, finite y => x ≤ y
  | finite _, inf negative => negative = false
  | inf negative, finite _ => negative = true
  | inf negative, inf negative' => negative = true ∨ negative' = false
  | _, _ => False

instance [Field K] : Zero (Extended K) := ⟨finite 0⟩
instance [Field K] : One (Extended K) := ⟨finite 1⟩
instance [Field K] : NatCast (Extended K) := ⟨fun n => finite n⟩
instance [Field K] : Add (Extended K) := ⟨add⟩
instance [Field K] : Sub (Extended K) := ⟨fun x y => x + neg y⟩
instance [Field K] [LinearOrder K] : Mul (Extended K) := ⟨mul⟩
instance [Field K] [LinearOrder K] : Div (Extended K) := ⟨div⟩
instance [LinearOrder K] : LE (Extended K) := ⟨le⟩

instance [LinearOrder K] : DecidableLE (Extended K) := fun x y =>
  match x, y with
  | finite x, finite y => inferInstanceAs (Decidable (x ≤ y))
  | finite _, inf negative => inferInstanceAs (Decidable (negative = false))
  | inf negative, finite _ => inferInstanceAs (Decidable (negative = true))
  | inf negative, inf negative' => inferInstanceAs (Decidable (negative = true ∨ negative' = false))
  | finite _, nan => isFalse id
  | inf _, nan => isFalse id
  | nan, _ => isFalse id

/-! ### Finite numbers -/

section Finite

variable [Field K]

@[simp] theorem natCast_eq (n : Nat) : (n : Extended K) = finite (n : K) := rfl

@[simp] theorem finite_add (x y : K) : finite x + finite y = finite (x + y) := rfl

@[simp] theorem finite_sub (x y : K) : finite x - finite y = finite (x - y) :=
  congrArg finite (sub_eq_add_neg x y).symm

@[simp] theorem add_nan (x : Extended K) : x + nan = nan := by cases x <;> rfl

variable [LinearOrder K]

@[simp] theorem finite_mul (x y : K) : finite x * finite y = finite (x * y) := rfl

theorem finite_div (x : K) {y : K} (hy : y ≠ 0) : finite x / finite y = finite (x / y) := if_neg hy

theorem zero_div_zero : (finite 0 / finite 0 : Extended K) = nan := by
  show (if (0 : K) = 0 then _ else _) = _
  rw [if_pos rfl, if_pos rfl]

end Finite

/-! ### Sums -/

section Sums

variable [Field K]

protected theorem add_assoc (x y z : Extended K) : x + y + z = x + (y + z) := by
  cases x with
  | nan => rfl
  | finite x =>
    cases y with
    | nan => rfl
    | finite y =>
      cases z with
      | finite z => exact congrArg finite (add_assoc x y z)
      | inf negative => rfl
      | nan => rfl
    | inf negative =>
      cases z with
      | finite z => rfl
      | inf negative' => cases negative <;> cases negative' <;> rfl
      | nan => rfl
  | inf negative =>
    cases y with
    | nan => rfl
    | finite y => cases z <;> rfl
    | inf negative' =>
      cases z with
      | finite z => cases negative <;> cases negative' <;> rfl
      | inf negative'' => cases negative <;> cases negative' <;> cases negative'' <;> rfl
      | nan => cases negative <;> cases negative' <;> rfl

protected theorem add_comm (x y : Extended K) : x + y = y + x := by
  cases x with
  | nan => exact (add_nan y).symm
  | finite x =>
    cases y with
    | finite y => exact congrArg finite (add_comm x y)
    | inf negative => rfl
    | nan => rfl
  | inf negative =>
    cases y with
    | finite y => rfl
    | inf negative' => cases negative <;> cases negative' <;> rfl
    | nan => rfl

protected theorem zero_add (x : Extended K) : 0 + x = x := by
  cases x with
  | finite x => exact congrArg finite (zero_add x)
  | inf negative => rfl
  | nan => rfl

instance : AddCommMonoid (Extended K) where
  add_assoc := Extended.add_assoc
  add_comm := Extended.add_comm
  zero_add := Extended.zero_add
  add_zero x := (Extended.add_comm x 0).trans (Extended.zero_add x)
  nsmul := nsmulRec

theorem div_mul_natCast [LinearOrder K] [IsStrictOrderedRing K] (x : Extended K) {n : Nat} (hn : n ≠ 0) : x / n * n = x := by
  have hcast : (n : K) ≠ 0 := Nat.cast_ne_zero.mpr hn
  have hpos : ¬(n : K) < 0 := not_lt.mpr (Nat.cast_nonneg n)
  cases x with
  | finite x => rw [natCast_eq, finite_div x hcast, finite_mul, div_mul_cancel₀ x hcast]
  | inf negative =>
    show (if (n : K) = 0 then nan else inf ((negative ^^ decide ((n : K) < 0)) ^^ decide ((n : K) < 0))) = _
    simp [hcast, hpos]
  | nan => rfl

theorem div_natCast_one [LinearOrder K] [IsStrictOrderedRing K] (x : Extended K) : x / (1 : Nat) = x := by
  have hpos : ¬((1 : Nat) : K) < 0 := not_lt.mpr (Nat.cast_nonneg 1)
  cases x with
  | finite x => rw [natCast_eq, finite_div x (Nat.cast_ne_zero.mpr Nat.one_ne_zero), Nat.cast_one, div_one]
  | inf negative =>
    show inf (negative ^^ decide (((1 : Nat) : K) < 0)) = _
    rw [decide_eq_false hpos, Bool.xor_false]
  | nan => rfl

end Sums

/-! ### Comparisons -/

section Comparisons

variable [LinearOrder K]

@[simp] theorem finite_le (x y : K) : finite x ≤ finite y ↔ x ≤ y := Iff.rfl

theorem not_nan_le (x : Extended K) : ¬nan ≤ x := id

theorem not_le_nan (x : Extended K) : ¬x ≤ nan := by cases x <;> exact id

protected theorem le_trans {x y z : Extended K} (hxy : x ≤ y) (hyz : y ≤ z) : x ≤ z := by
  cases y with
  | nan => exact absurd hxy (not_le_nan x)
  | finite y =>
    cases x with
    | nan => exact absurd hxy (not_nan_le _)
    | finite x =>
      cases z with
      | finite z => exact (show x ≤ y from hxy).trans hyz
      | inf negative => exact hyz
      | nan => exact hyz
    | inf negative =>
      cases z with
      | finite z => exact hxy
      | inf negative' => exact .inl hxy
      | nan => exact hyz
  | inf negative' =>
    cases x with
    | nan => exact absurd hxy (not_nan_le _)
    | finite x =>
      cases z with
      | finite z => exact absurd (hxy.symm.trans hyz) Bool.false_ne_true
      | inf negative => exact hyz.resolve_left fun h => Bool.false_ne_true (hxy.symm.trans h)
      | nan => exact hyz
    | inf negative =>
      cases z with
      | finite z => exact hxy.resolve_right fun h => Bool.false_ne_true (h.symm.trans hyz)
      | inf negative'' =>
        rcases hxy with hxy | hxy
        · exact .inl hxy
        · exact .inr (hyz.resolve_left fun h => Bool.false_ne_true (hxy.symm.trans h))
      | nan => exact hyz

theorem le_of_not_le {x y : Extended K} (hx : x ≠ nan) (hy : y ≠ nan) (h : ¬x ≤ y) : y ≤ x := by
  cases x with
  | nan => exact absurd rfl hx
  | finite x =>
    cases y with
    | nan => exact absurd rfl hy
    | finite y => exact (not_le.mp h : y < x).le
    | inf negative => exact Bool.eq_true_of_not_eq_false h
  | inf negative =>
    cases y with
    | nan => exact absurd rfl hy
    | finite y => exact Bool.eq_false_of_not_eq_true h
    | inf negative' => exact .inr (Bool.eq_false_of_not_eq_true fun htrue => h (.inl htrue))

end Comparisons

end Extended

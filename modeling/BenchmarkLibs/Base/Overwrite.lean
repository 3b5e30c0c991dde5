import Mathlib.Data.Finset.Dedup
import Mathlib.Data.Finset.Lattice.Lemmas
import Mathlib.Data.Finset.Range

/-!
# Lists overwritten at a set of positions

A buffer is written cell by cell, in some order, each cell with the value a function gives it. After any
number of writes the buffer is its first content overwritten on the set of positions written so far;
once the set covers the buffer nothing of the first content is left.
-/

namespace Overwrite

variable {α : Type*}

/-- `init` with `g b` at every position `b` of `written`. -/
def overwrite (g : Nat → α) (written : Finset Nat) (init : List α) : List α :=
  init.mapIdx fun b x => if b ∈ written then g b else x

@[simp] theorem length_overwrite (g : Nat → α) (written : Finset Nat) (init : List α) :
    (overwrite g written init).length = init.length := by
  simp [overwrite]

theorem getElem?_overwrite (g : Nat → α) (written : Finset Nat) (init : List α) (b : Nat) :
    (overwrite g written init)[b]? = init[b]?.map fun x => if b ∈ written then g b else x := by
  simp [overwrite]

theorem overwrite_empty (g : Nat → α) (init : List α) : overwrite g ∅ init = init := by
  apply List.ext_getElem?
  intro b
  simp [getElem?_overwrite]

theorem set_overwrite (g : Nat → α) (written : Finset Nat) (init : List α) (b : Nat) :
    (overwrite g written init).set b (g b) = overwrite g (insert b written) init := by
  apply List.ext_getElem?
  intro i
  rw [List.getElem?_set, getElem?_overwrite, getElem?_overwrite]
  by_cases hib : b = i
  · subst hib
    by_cases hb : b < init.length
    · simp [hb]
    · simp [hb]
  · simp [hib, Ne.symm hib]

theorem set_overwrite_range (g : Nat → α) (init : List α) (b : Nat) :
    (overwrite g (Finset.range b) init).set b (g b) = overwrite g (Finset.range (b + 1)) init := by
  rw [set_overwrite, Finset.range_add_one]

theorem foldl_set (g : Nat → α) (order : List Nat) (init : List α) :
    order.foldl (fun out b => out.set b (g b)) init = overwrite g order.toFinset init := by
  have hfrom : ∀ written : Finset Nat, order.foldl (fun out b => out.set b (g b)) (overwrite g written init)
      = overwrite g (written ∪ order.toFinset) init := by
    induction order with
    | nil => simp
    | cons b order ih =>
      intro written
      rw [List.foldl_cons, set_overwrite, ih, List.toFinset_cons, Finset.insert_union, Finset.union_insert]
  rw [← overwrite_empty g init, hfrom, Finset.empty_union, overwrite_empty]

theorem overwrite_congr {g g' : Nat → α} {written : Finset Nat} (init : List α)
    (h : ∀ b ∈ written, g b = g' b) : overwrite g written init = overwrite g' written init := by
  apply List.ext_getElem?
  intro b
  rw [getElem?_overwrite, getElem?_overwrite]
  by_cases hb : b ∈ written
  · simp [hb, h b hb]
  · simp [hb]

/-- A buffer written everywhere holds the written values alone. -/
theorem overwrite_full (g : Nat → α) {written : Finset Nat} {init : List α}
    (hfull : ∀ b, b < init.length → b ∈ written) :
    overwrite g written init = (List.range init.length).map g := by
  apply List.ext_getElem?
  intro b
  rw [getElem?_overwrite]
  by_cases hb : b < init.length
  · simp [hb, hfull b hb]
  · simp [hb]

theorem take_overwrite_range (g : Nat → α) {init : List α} {b : Nat} (hb : b ≤ init.length) :
    (overwrite g (Finset.range b) init).take b = (List.range b).map g := by
  apply List.ext_getElem?
  intro i
  rw [List.getElem?_take, getElem?_overwrite]
  by_cases hi : i < b
  · simp [hi, List.getElem?_eq_getElem (lt_of_lt_of_le hi hb)]
  · simp [hi]

end Overwrite

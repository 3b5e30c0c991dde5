import Mathlib.Order.Basic

/-!
# Counted loops

`for (j = 0; j < bound; j += stride)` as a structural recursion. The fuel is the bound: a loop whose
counter moves by at least one tests its condition at most `bound + 1` times, so the fuel never runs out
and the rule below reads like the rule of a while loop.
-/

namespace Counted

variable {σ : Type*}

def loopFrom (bound stride : Nat) (body : Nat → σ → σ) : Nat → Nat → σ → σ
  | 0, _, s => s
  | fuel + 1, j, s => if j < bound then loopFrom bound stride body fuel (j + stride) (body j s) else s

/-- `for (j = 0; j < bound; j += stride) s = body j s`. -/
def forLoop (bound stride : Nat) (body : Nat → σ → σ) (s : σ) : σ :=
  loopFrom bound stride body bound 0 s

private theorem loopFrom_rule {bound stride : Nat} {body : Nat → σ → σ} (hstride : 0 < stride)
    (P : Nat → σ → Prop) (hbody : ∀ j s, j < bound → P j s → P (j + stride) (body j s)) :
    ∀ fuel j s, bound ≤ j + fuel → P j s →
      ∃ j', bound ≤ j' ∧ P j' (loopFrom bound stride body fuel j s) := by
  intro fuel
  induction fuel with
  | zero => intro j s hfuel hP; exact ⟨j, hfuel, hP⟩
  | succ fuel ih =>
    intro j s hfuel hP
    by_cases hj : j < bound
    · rw [loopFrom, if_pos hj]
      exact ih (j + stride) (body j s) (by omega) (hbody j s hj hP)
    · rw [loopFrom, if_neg hj]
      exact ⟨j, by omega, hP⟩

/-- What every turn preserves holds at the exit, where the counter has reached the bound. -/
theorem forLoop_rule (bound : Nat) {stride : Nat} (body : Nat → σ → σ) (s : σ) (hstride : 0 < stride)
    (P : Nat → σ → Prop) (hstart : P 0 s)
    (hbody : ∀ j s, j < bound → P j s → P (j + stride) (body j s)) :
    ∃ j, bound ≤ j ∧ P j (forLoop bound stride body s) :=
  loopFrom_rule hstride P hbody bound 0 s (by omega) hstart

theorem forLoop_multiple (turns : Nat) {stride : Nat} (body : Nat → σ → σ) (s : σ) (hstride : 0 < stride)
    (P : Nat → σ → Prop) (hstart : P 0 s)
    (hbody : ∀ k s, k < turns → P k s → P (k + 1) (body (stride * k) s)) :
    P turns (forLoop (stride * turns) stride body s) := by
  obtain ⟨j, hj, k, rfl, hk, hP⟩ := forLoop_rule (stride * turns) body s hstride
    (fun j s => ∃ k, j = stride * k ∧ k ≤ turns ∧ P k s) ⟨0, rfl, turns.zero_le, hstart⟩ (by
      rintro j s hj ⟨k, rfl, _, hP⟩
      have hlt : k < turns := Nat.lt_of_mul_lt_mul_left hj
      exact ⟨k + 1, (Nat.mul_succ stride k).symm, hlt, hbody k s hlt hP⟩)
  have hle : turns ≤ k := Nat.le_of_mul_le_mul_left hj hstride
  rwa [Nat.le_antisymm hk hle] at hP

theorem forLoop_one (bound : Nat) (body : Nat → σ → σ) (s : σ) (P : Nat → σ → Prop) (hstart : P 0 s)
    (hbody : ∀ j s, j < bound → P j s → P (j + 1) (body j s)) :
    P bound (forLoop bound 1 body s) := by
  simpa using forLoop_multiple bound body s Nat.one_pos P hstart (by simpa using hbody)

end Counted

import Mathlib.Data.List.Range

/-!
# Computations that can fault

`Except Fault` for code whose array accesses, pointers, divisions and signed counters can go wrong.
`Succeeds x P` is total correctness of one computation, and `FaultsIn x E` says which faults it can end with. Two computations are compared by `Refines`, where
they end alike, and by `Coupled`, where they end alike unless one of them stops early. Each notion has the
rules of a sequence and of a loop.
-/

namespace Fallible

inductive Fault
  | outOfRange
  | nullPointer
  | divByZero
  | intOverflow
  deriving DecidableEq, Repr

universe u

variable {ε : Type*} {α β σ : Type u}

@[simp] theorem ok_bind (a : α) (f : α → Except ε β) : (.ok a >>= f) = f a := rfl

@[simp] theorem error_bind (e : ε) (f : α → Except ε β) : (.error e >>= f) = .error e := rfl

theorem bind_eq_ok {x : Except ε α} {f : α → Except ε β} {b : β} :
    (x >>= f) = .ok b ↔ ∃ a, x = .ok a ∧ f a = .ok b := by
  cases x with
  | error e => simp
  | ok a => simp

/-! ### Success -/

/-- The computation ends without a fault, with a result in `P`. -/
def Succeeds (x : Except ε α) (P : α → Prop) : Prop :=
  ∃ a, x = .ok a ∧ P a

theorem Succeeds.ok {a : α} {P : α → Prop} (h : P a) : Succeeds (.ok a : Except ε α) P :=
  ⟨a, rfl, h⟩

theorem Succeeds.imp {x : Except ε α} {P Q : α → Prop} (hx : Succeeds x P) (h : ∀ a, P a → Q a) :
    Succeeds x Q := by
  obtain ⟨a, ha, hP⟩ := hx
  exact ⟨a, ha, h a hP⟩

theorem Succeeds.bind {x : Except ε α} {f : α → Except ε β} {P : α → Prop} {Q : β → Prop}
    (hx : Succeeds x P) (hf : ∀ a, P a → Succeeds (f a) Q) : Succeeds (x >>= f) Q := by
  obtain ⟨a, rfl, hP⟩ := hx
  exact hf a hP

theorem Succeeds.ne_error {x : Except ε α} {P : α → Prop} (hx : Succeeds x P) (e : ε) : x ≠ .error e := by
  obtain ⟨a, rfl, -⟩ := hx
  exact fun h => by cases h

theorem Succeeds.foldlM {body : σ → α → Except ε σ} (P : List α → σ → Prop) :
    ∀ {turns : List α} {s : σ}, P turns s →
      (∀ a rest s, P (a :: rest) s → Succeeds (body s a) (P rest)) →
      Succeeds (turns.foldlM body s) (P []) := by
  intro turns
  induction turns with
  | nil => intro s hP _; exact .ok hP
  | cons a rest ih =>
    intro s hP hbody
    rw [List.foldlM_cons]
    exact (hbody a rest s hP).bind fun s' hs' => ih hs' hbody

theorem Succeeds.foldlM_range (count : Nat) (body : σ → Nat → Except ε σ) (s : σ) (P : Nat → σ → Prop)
    (hstart : P 0 s) (hbody : ∀ i s, i < count → P i s → Succeeds (body s i) (P (i + 1))) :
    Succeeds ((List.range count).foldlM body s) (P count) := by
  induction count with
  | zero => exact .ok hstart
  | succ count ih =>
    rw [List.range_succ, List.foldlM_append]
    have hprefix := ih fun i s hi => hbody i s (Nat.lt_succ_of_lt hi)
    refine hprefix.bind fun s' hs' => ?_
    rw [List.foldlM_cons]
    exact (hbody count s' count.lt_succ_self hs').bind fun s'' hs'' => .ok hs''

theorem foldlM_preserves {body : σ → α → Except ε σ} {P : σ → Prop} :
    ∀ {turns : List α} {s s' : σ},
      (∀ a ∈ turns, ∀ s s', body s a = .ok s' → P s → P s') →
      turns.foldlM body s = .ok s' → P s → P s' := by
  intro turns
  induction turns with
  | nil =>
    intro s s' _ hrun hP
    cases hrun
    exact hP
  | cons a turns ih =>
    intro s s' hbody hrun hP
    obtain ⟨hfirst, hrest⟩ := List.forall_mem_cons.mp hbody
    rw [List.foldlM_cons] at hrun
    obtain ⟨s₁, hturn, hrun⟩ := bind_eq_ok.mp hrun
    exact ih hrest hrun (hfirst s s₁ hturn hP)

theorem Succeeds.mapM {f : α → Except ε β} {P : β → Prop} {list : List α}
    (h : ∀ a ∈ list, Succeeds (f a) P) : Succeeds (list.mapM f) fun bs => ∀ b ∈ bs, P b := by
  induction list with
  | nil => exact .ok (by simp)
  | cons a list ih =>
    rw [List.mapM_cons]
    refine (h a List.mem_cons_self).bind fun b hb => ?_
    refine (ih fun a' ha' => h a' (List.mem_cons_of_mem a ha')).bind fun bs hbs => .ok ?_
    exact List.forall_mem_cons.mpr ⟨hb, hbs⟩

/-! ### Faults -/

/-- Whatever fault the computation ends with is in `E`. -/
def FaultsIn (x : Except ε α) (E : ε → Prop) : Prop := ∀ e, x = .error e → E e

theorem FaultsIn.ok (a : α) (E : ε → Prop) : FaultsIn (.ok a : Except ε α) E := by
  intro e h
  cases h

theorem FaultsIn.bind {x : Except ε α} {f : α → Except ε β} {E : ε → Prop} (hx : FaultsIn x E)
    (hf : ∀ a, x = .ok a → FaultsIn (f a) E) : FaultsIn (x >>= f) E := by
  cases x with
  | error e =>
    intro e' h
    cases h
    exact hx e rfl
  | ok a => exact hf a rfl

theorem FaultsIn.foldlM {body : σ → α → Except ε σ} {E : ε → Prop} {turns : List α}
    (h : ∀ a ∈ turns, ∀ s, FaultsIn (body s a) E) (s : σ) : FaultsIn (turns.foldlM body s) E := by
  induction turns generalizing s with
  | nil => exact .ok s E
  | cons a turns ih =>
    obtain ⟨hfirst, hrest⟩ := List.forall_mem_cons.mp h
    rw [List.foldlM_cons]
    exact (hfirst s).bind fun s' _ => ih hrest s'

/-! ### Two computations -/

/-- The computations end with the same fault, or with results related by `R`. -/
inductive Refines (R : α → β → Prop) : Except ε α → Except ε β → Prop
  | ok {a : α} {b : β} (h : R a b) : Refines R (.ok a) (.ok b)
  | error (e : ε) : Refines R (.error e) (.error e)

theorem Refines.bind {α' β' : Type u} {R : α → β → Prop} {S : α' → β' → Prop}
    {x : Except ε α} {y : Except ε β} {f : α → Except ε α'} {g : β → Except ε β'} (h : Refines R x y)
    (hfg : ∀ a b, R a b → Refines S (f a) (g b)) : Refines S (x >>= f) (y >>= g) := by
  cases h with
  | ok hR => exact hfg _ _ hR
  | error e => exact .error e

theorem Refines.map {γ : Type u} {R : α → β → Prop} {S : α → γ → Prop}
    {x : Except ε α} {y : Except ε β} {f : β → γ} (h : Refines R x y) (hf : ∀ a b, R a b → S a (f b)) :
    Refines S x (y >>= fun b => .ok (f b)) := by
  cases h with
  | ok hR => exact .ok (hf _ _ hR)
  | error e => exact .error e

theorem Refines.succeeds {R : α → β → Prop} {P : α → Prop} {x : Except ε α} {y : Except ε β}
    (h : Refines R x y) (hx : Succeeds x P) : Succeeds y fun b => ∃ a, P a ∧ R a b := by
  obtain ⟨a, rfl, hP⟩ := hx
  cases h with
  | ok hR => exact .ok ⟨a, hP, hR⟩

theorem Refines.eq_error {R : α → β → Prop} {e : ε} {y : Except ε β} (h : Refines R (.error e) y) :
    y = .error e := by
  cases h
  rfl

/-- Unless one of the computations ends with `fault`, both succeed, with results related by `R`. -/
def Coupled (fault : ε) (R : α → β → Prop) (x : Except ε α) (y : Except ε β) : Prop :=
  x ≠ .error fault → y ≠ .error fault → ∃ a b, x = .ok a ∧ y = .ok b ∧ R a b

theorem Coupled.ok {fault : ε} {R : α → β → Prop} {a : α} {b : β} (h : R a b) :
    Coupled fault R (.ok a) (.ok b) :=
  fun _ _ => ⟨a, b, rfl, rfl, h⟩

theorem Coupled.bind {α' β' : Type u} {fault : ε} {R : α → β → Prop} {S : α' → β' → Prop}
    {x : Except ε α} {y : Except ε β} {f : α → Except ε α'} {g : β → Except ε β'} (h : Coupled fault R x y)
    (hfg : ∀ a b, R a b → Coupled fault S (f a) (g b)) : Coupled fault S (x >>= f) (y >>= g) := by
  intro hx hy
  have hx' : x ≠ .error fault := by
    rintro rfl
    exact hx rfl
  have hy' : y ≠ .error fault := by
    rintro rfl
    exact hy rfl
  obtain ⟨a, b, rfl, rfl, hR⟩ := h hx' hy'
  exact hfg a b hR hx hy

theorem Coupled.foldlM {σ' γ : Type u} {fault : ε} {R : σ → σ' → Prop} {f : σ → γ → Except ε σ}
    {g : σ' → γ → Except ε σ'} (hfg : ∀ c s s', R s s' → Coupled fault R (f s c) (g s' c)) :
    ∀ (turns : List γ) (s : σ) (s' : σ'), R s s' →
      Coupled fault R (turns.foldlM f s) (turns.foldlM g s') := by
  intro turns
  induction turns with
  | nil => intro s s' hR; exact .ok hR
  | cons c turns ih =>
    intro s s' hR
    rw [List.foldlM_cons, List.foldlM_cons]
    exact (hfg c s s' hR).bind ih

theorem Refines.foldlM {σ' γ : Type u} {R : σ → σ' → Prop} {f : σ → γ → Except ε σ}
    {g : σ' → γ → Except ε σ'} (hfg : ∀ c s s', R s s' → Refines R (f s c) (g s' c)) :
    ∀ (turns : List γ) (s : σ) (s' : σ'), R s s' → Refines R (turns.foldlM f s) (turns.foldlM g s') := by
  intro turns
  induction turns with
  | nil => intro s s' hR; exact .ok hR
  | cons c turns ih =>
    intro s s' hR
    rw [List.foldlM_cons, List.foldlM_cons]
    exact (hfg c s s' hR).bind ih

/-- A coupling with a computation is one with every computation that refines it. -/
theorem Coupled.refines {γ : Type u} {fault : ε} {R : α → β → Prop} {S : β → γ → Prop} {x : Except ε α}
    {y : Except ε β} {z : Except ε γ} (h : Coupled fault R x y) (hyz : Refines S y z) :
    Coupled fault (fun a c => ∃ b, R a b ∧ S b c) x z := by
  intro hx hz
  cases hyz with
  | @ok b c hS =>
    obtain ⟨a, _, rfl, hb, hR⟩ := h hx (by simp)
    cases hb
    exact ⟨a, c, rfl, rfl, b, hR, hS⟩
  | error e =>
    have hy : (.error e : Except ε β) ≠ .error fault := fun he => hz (by cases he; rfl)
    obtain ⟨_, _, -, hb, -⟩ := h hx hy
    cases hb

/-! ### Checked access to an array -/

def readAt (array : List α) (index : Nat) : Except Fault α :=
  match array[index]? with
  | some value => .ok value
  | none => .error .outOfRange

def storeAt (array : List α) (index : Nat) (value : α) : Except Fault (List α) :=
  if index < array.length then .ok (array.set index value) else .error .outOfRange

def deref (pointer : Option α) : Except Fault α :=
  match pointer with
  | some value => .ok value
  | none => .error .nullPointer

/-- `value % modulus`, of unsigned numbers. -/
def modulo (value modulus : Nat) : Except Fault Nat :=
  if modulus = 0 then .error .divByZero else .ok (value % modulus)

theorem readAt_of_lt {array : List α} {index : Nat} (h : index < array.length) :
    readAt array index = .ok array[index] := by
  simp [readAt, h]

theorem storeAt_of_lt {array : List α} {index : Nat} (value : α) (h : index < array.length) :
    storeAt array index value = .ok (array.set index value) :=
  if_pos h

end Fallible

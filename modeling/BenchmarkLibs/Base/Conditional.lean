import BenchmarkLibs.Base.Storage

/-!
# Computations that succeed under a condition

`SucceedsIff x C P` says when a computation succeeds, and what of its result: in `P`, and only where `C`
holds. In a sequence and in a pass over a list the conditions of the parts are collected.
-/

namespace Fallible

universe u

variable {ε : Type*} {α β σ : Type u}

theorem foldlM_range_preserves {count : Nat} {body : σ → Nat → Except ε σ} {s s' : σ} {P : Nat → σ → Prop}
    (hrun : (List.range count).foldlM body s = .ok s') (hstart : P 0 s)
    (hbody : ∀ i s s', i < count → body s i = .ok s' → P i s → P (i + 1) s') : P count s' := by
  induction count generalizing s' with
  | zero =>
    cases hrun
    exact hstart
  | succ count ih =>
    rw [List.range_succ, List.foldlM_append] at hrun
    obtain ⟨s₁, hfirst, hlast⟩ := bind_eq_ok.mp hrun
    rw [List.foldlM_cons] at hlast
    obtain ⟨s₂, hturn, hlast⟩ := bind_eq_ok.mp hlast
    cases hlast
    exact hbody count s₁ _ count.lt_succ_self hturn
      (ih hfirst fun i s s' hi => hbody i s s' (Nat.lt_succ_of_lt hi))

/-- What has become of each element in a pass. -/
theorem forEach_forall₂ {P S : Type} {f : P → S → Except ε (P × S)} {ps : List P} {s : S} {a : List P × S}
    (hrun : Storage.forEach f ps s = .ok a) :
    List.Forall₂ (fun p p' => ∃ s s', f p s = .ok (p', s')) ps a.1 := by
  induction ps generalizing s a with
  | nil =>
    cases hrun
    exact .nil
  | cons p ps ih =>
    obtain ⟨first, hfirst, hrun⟩ := bind_eq_ok.mp hrun
    obtain ⟨rest, hrest, hrun⟩ := bind_eq_ok.mp hrun
    cases hrun
    exact .cons ⟨s, first.2, hfirst⟩ (ih hrest)

theorem forall₂_trans {A B C : Type*} {R : A → B → Prop} {S : B → C → Prop} {T : A → C → Prop}
    (hRS : ∀ a b c, R a b → S b c → T a c) {as : List A} {bs : List B} {cs : List C}
    (h : List.Forall₂ R as bs) (h' : List.Forall₂ S bs cs) : List.Forall₂ T as cs := by
  induction h generalizing cs with
  | nil =>
    cases h'
    exact .nil
  | cons hR _ ih =>
    cases h' with
    | cons hS hrest => exact .cons (hRS _ _ _ hR hS) (ih hrest)

/-- The computation succeeds exactly if `C` holds, and then with a result in `P`. -/
structure SucceedsIff (x : Except ε α) (C : Prop) (P : α → Prop) : Prop where
  of_ok : ∀ a, x = .ok a → C ∧ P a
  ok_of : C → ∃ a, x = .ok a

namespace SucceedsIff

theorem iff {x : Except ε α} {C : Prop} {P : α → Prop} (h : SucceedsIff x C P) : (∃ a, x = .ok a) ↔ C :=
  ⟨fun ⟨a, ha⟩ => (h.of_ok a ha).1, h.ok_of⟩

theorem ok {a : α} {P : α → Prop} (h : P a) : SucceedsIff (.ok a : Except ε α) True P where
  of_ok b hb := by
    cases hb
    exact ⟨trivial, h⟩
  ok_of _ := ⟨a, rfl⟩

theorem error (e : ε) {C : Prop} {P : α → Prop} (h : ¬C) : SucceedsIff (.error e) C P where
  of_ok b hb := by cases hb
  ok_of hC := absurd hC h

theorem congr {x : Except ε α} {C D : Prop} {P : α → Prop} (h : SucceedsIff x C P) (hCD : C ↔ D) :
    SucceedsIff x D P where
  of_ok a ha := (h.of_ok a ha).imp_left hCD.mp
  ok_of hD := h.ok_of (hCD.mpr hD)

theorem imp {x : Except ε α} {C : Prop} {P Q : α → Prop} (h : SucceedsIff x C P)
    (hPQ : ∀ a, C → P a → Q a) : SucceedsIff x C Q where
  of_ok a ha := ⟨(h.of_ok a ha).1, hPQ a (h.of_ok a ha).1 (h.of_ok a ha).2⟩
  ok_of := h.ok_of

theorem bind {x : Except ε α} {f : α → Except ε β} {C D : Prop} {P : α → Prop} {Q : β → Prop}
    (h : SucceedsIff x C P) (hf : ∀ a, P a → SucceedsIff (f a) D Q) : SucceedsIff (x >>= f) (C ∧ D) Q where
  of_ok b hb := by
    obtain ⟨a, ha, hfa⟩ := bind_eq_ok.mp hb
    obtain ⟨hC, hP⟩ := h.of_ok a ha
    obtain ⟨hD, hQ⟩ := (hf a hP).of_ok b hfa
    exact ⟨⟨hC, hD⟩, hQ⟩
  ok_of hCD := by
    obtain ⟨a, ha⟩ := h.ok_of hCD.1
    obtain ⟨b, hb⟩ := (hf a (h.of_ok a ha).2).ok_of hCD.2
    exact ⟨b, bind_eq_ok.mpr ⟨a, ha, hb⟩⟩

/-- A loop; the invariant `P i` holds before the turn `i`. -/
theorem foldlM_range {count : Nat} {body : σ → Nat → Except ε σ} {s : σ} {C : Nat → Prop} {P : Nat → σ → Prop}
    (hstart : P 0 s) (hbody : ∀ i s, i < count → P i s → SucceedsIff (body s i) (C i) (P (i + 1))) :
    SucceedsIff ((List.range count).foldlM body s) (∀ i < count, C i) (P count) := by
  induction count with
  | zero => exact (ok hstart).congr (by simp)
  | succ count ih =>
    rw [List.range_succ, List.foldlM_append]
    have hfirst := ih fun i s hi => hbody i s (Nat.lt_succ_of_lt hi)
    refine (hfirst.bind fun s' hs' => ?_).congr Nat.forall_lt_succ_right.symm
    rw [List.foldlM_cons]
    refine ((hbody count s' count.lt_succ_self hs').bind fun s'' hs'' => ok hs'').congr ?_
    exact and_iff_left trivial

/-- A pass; `I` relates what is done, what has become of it, and the state. -/
theorem forEach {P S : Type} {f : P → S → Except ε (P × S)} {C : P → Prop}
    {I : List P → List P → S → Prop} {ps : List P} {s : S} (hstart : I [] [] s)
    (hstep : ∀ done done' p s, I done done' s → p ∈ ps →
      SucceedsIff (f p s) (C p) fun a => I (done ++ [p]) (done' ++ [a.1]) a.2) :
    SucceedsIff (Storage.forEach f ps s) (∀ p ∈ ps, C p) fun a => I ps a.1 a.2 := by
  have hrun : ∀ (rest done done' : List P) (s : S), (∀ p ∈ rest, p ∈ ps) → I done done' s →
      SucceedsIff (Storage.forEach f rest s) (∀ p ∈ rest, C p) fun a => I (done ++ rest) (done' ++ a.1) a.2 := by
    intro rest
    induction rest with
    | nil =>
      intro done done' s _ hI
      rw [Storage.forEach]
      exact (ok (by simpa only [List.append_nil] using hI)).congr (by simp)
    | cons p rest ih =>
      intro done done' s hmem hI
      obtain ⟨hp, hrest⟩ := List.forall_mem_cons.mp hmem
      rw [Storage.forEach]
      refine ((hstep done done' p s hI hp).bind fun a ha => ?_).congr List.forall_mem_cons.symm
      refine ((ih _ _ a.2 hrest ha).bind fun b hb => ok ?_).congr (and_iff_left trivial)
      simp only [List.append_assoc, List.singleton_append] at hb
      exact hb
  exact hrun ps [] [] s (fun p hp => hp) hstart

end SucceedsIff

end Fallible

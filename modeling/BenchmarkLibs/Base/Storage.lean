import BenchmarkLibs.Base.Fallible
import Mathlib.Algebra.Order.Ring.Int
import Mathlib.Data.List.Forall2
import Mathlib.Data.List.Nodup
import Mathlib.Data.Option.Basic

/-!
# Objects in a vector and objects behind pointers

A collection of objects is kept in the vector itself, or in a heap that a vector of pointers points into. A
pass over the collection changes each object in turn and a state that all of them share. As long as no two
pointers are equal, the pass over the pointers does to their pointees what the pass over the vector does
to its elements (`forEachPtr_refines`).
-/

namespace Storage

open Fallible

variable {ε : Type*} {P Q S T : Type}

/-! ### Passes -/

/-- `for (auto &p : objects) p.f();`, with the shared state. -/
def forEach (f : P → S → Except ε (P × S)) : List P → S → Except ε (List P × S)
  | [], s => .ok ([], s)
  | p :: rest, s => do
    let (p, s) ← f p s
    let (rest, s) ← forEach f rest s
    .ok (p :: rest, s)

/-- `for (auto &p : pointers) p->f();`. A pointer is an address in the heap, or null. -/
def forEachPtr (f : P → S → Except Fault (P × S)) :
    List (Option Nat) → List P → S → Except Fault (List P × S)
  | [], heap, s => .ok (heap, s)
  | pointer :: rest, heap, s => do
    let address ← deref pointer
    let p ← readAt heap address
    let (p, s) ← f p s
    let heap ← storeAt heap address p
    forEachPtr f rest heap s

/-- `for (auto &p : pointers) p = make(…);`, each time with a new object at the end of the heap. -/
def makeEach (object : P) : List (Option Nat) → List P → List (Option Nat) × List P
  | [], heap => ([], heap)
  | _ :: rest, heap =>
    let (rest, heap') := makeEach object rest (heap ++ [object])
    (some heap.length :: rest, heap')

theorem forEach_succeeds {f : P → S → Except ε (P × S)} (spent : S → Int) (budget : Int) {cost : Int}
    (hcost : 0 ≤ cost)
    (hstep : ∀ p s, spent s + cost ≤ budget → Succeeds (f p s) fun a => spent a.2 ≤ spent s + cost) :
    ∀ (ps : List P) (s : S), spent s + cost * ps.length ≤ budget →
      Succeeds (forEach f ps s) fun a => a.1.length = ps.length ∧ spent a.2 ≤ spent s + cost * ps.length := by
  intro ps
  induction ps with
  | nil => intro s _; exact .ok ⟨rfl, by simp⟩
  | cons p ps ih =>
    intro s hbudget
    simp only [List.length_cons, Nat.cast_add, Nat.cast_one, mul_add, mul_one] at hbudget ⊢
    have hrest : 0 ≤ cost * ps.length := mul_nonneg hcost (Int.natCast_nonneg _)
    refine (hstep p s (by omega)).bind fun a ha => ?_
    refine (ih a.2 (by omega)).bind fun as has => .ok ⟨?_, ?_⟩
    · rw [List.length_cons, has.1]
    · have := has.2
      simp only
      omega

theorem forEach_preserves {f : P → S → Except ε (P × S)} {I : S → Prop}
    (hstep : ∀ p s a, f p s = .ok a → I s → I a.2) :
    ∀ {ps : List P} {s : S} {a : List P × S}, forEach f ps s = .ok a → I s → I a.2 := by
  intro ps
  induction ps with
  | nil =>
    intro s a hrun hI
    cases hrun
    exact hI
  | cons p ps ih =>
    intro s a hrun hI
    obtain ⟨first, hfirst, hrun⟩ := bind_eq_ok.mp hrun
    obtain ⟨rest, hrest, hrun⟩ := bind_eq_ok.mp hrun
    cases hrun
    have hI' := ih hrest (hstep p s first hfirst hI)
    exact hI'

theorem forEachPtr_preserves {f : P → S → Except Fault (P × S)} {I : S → Prop}
    (hstep : ∀ p s a, f p s = .ok a → I s → I a.2) :
    ∀ {pointers : List (Option Nat)} {heap : List P} {s : S} {a : List P × S},
      forEachPtr f pointers heap s = .ok a → I s → I a.2 := by
  intro pointers
  induction pointers with
  | nil =>
    intro heap s a hrun hI
    cases hrun
    exact hI
  | cons pointer pointers ih =>
    intro heap s a hrun hI
    obtain ⟨address, -, hrun⟩ := bind_eq_ok.mp hrun
    obtain ⟨p, -, hrun⟩ := bind_eq_ok.mp hrun
    obtain ⟨first, hfirst, hrun⟩ := bind_eq_ok.mp hrun
    obtain ⟨heap', -, hrun⟩ := bind_eq_ok.mp hrun
    exact ih hrun (hstep p s first hfirst hI)

/-! ### Passes over two vectors -/

theorem forEach_coupled {fault : ε} {f : P → S → Except ε (P × S)} {g : Q → T → Except ε (Q × T)}
    {R : P → Q → Prop} {I : S → T → Prop}
    (hstep : ∀ p q s t, R p q → I s t →
      Coupled fault (fun a b => R a.1 b.1 ∧ I a.2 b.2) (f p s) (g q t)) :
    ∀ {ps : List P} {qs : List Q}, List.Forall₂ R ps qs → ∀ {s : S} {t : T}, I s t →
      Coupled fault (fun a b => List.Forall₂ R a.1 b.1 ∧ I a.2 b.2) (forEach f ps s) (forEach g qs t) := by
  intro ps qs h
  induction h with
  | nil => intro s t hI; exact .ok ⟨.nil, hI⟩
  | cons hR _ ih =>
    intro s t hI
    refine (hstep _ _ s t hR hI).bind fun a b hab => ?_
    exact (ih hab.2).bind fun as bs habs => .ok ⟨.cons hab.1 habs.1, habs.2⟩

/-! ### Pointers -/

/-- The pointers point to the objects, one to each. -/
def PointsTo (objects : List P) (pointers : List (Option Nat)) (heap : List P) : Prop :=
  List.Forall₂ (fun object pointer => ∃ address, pointer = some address ∧ heap[address]? = some object)
    objects pointers

/-- The pointers reach the objects, each by a pointer of its own. -/
structure Reaches (objects : List P) (pointers : List (Option Nat)) (heap : List P) : Prop where
  nodup : pointers.Nodup
  pointsTo : PointsTo objects pointers heap

theorem PointsTo.congr {objects : List P} {pointers : List (Option Nat)} {heap heap' : List P}
    (h : PointsTo objects pointers heap)
    (hsame : ∀ address, some address ∈ pointers → heap'[address]? = heap[address]?) :
    PointsTo objects pointers heap' := by
  induction h with
  | nil => exact .nil
  | @cons object pointer objects pointers hfirst _ ih =>
    obtain ⟨address, rfl, hobject⟩ := hfirst
    refine .cons ⟨address, rfl, ?_⟩ (ih fun address' h => hsame address' (List.mem_cons_of_mem _ h))
    rw [hsame address List.mem_cons_self, hobject]

theorem PointsTo.pointee {objects : List P} {pointers : List (Option Nat)} {heap : List P}
    (h : PointsTo objects pointers heap) {i : Nat} (hi : i < objects.length) :
    ∃ address, pointers[i]? = some (some address) ∧ heap[address]? = some objects[i] := by
  have hi' : i < pointers.length := h.length_eq ▸ hi
  obtain ⟨address, haddress, hobject⟩ := List.Forall₂.get h hi hi'
  exact ⟨address, List.getElem?_eq_some_iff.mpr ⟨hi', haddress⟩, hobject⟩

theorem PointsTo.map_pointees {α : Type} (f : P → α) {objects : List P} {pointers : List (Option Nat)}
    {heap : List P} (h : PointsTo objects pointers heap) :
    pointers.map (fun pointer => pointer.bind fun address => heap[address]?.map f)
      = objects.map fun object => some (f object) := by
  induction h with
  | nil => rfl
  | cons hfirst _ ih =>
    obtain ⟨address, rfl, hobject⟩ := hfirst
    rw [List.map_cons, List.map_cons, ih, Option.bind_some, hobject, Option.map_some]

/-- A pass changes the pointees alone; the rest of the heap is the frame. -/
private theorem forEachPtr_frame {f : P → S → Except Fault (P × S)} {objects : List P}
    {pointers : List (Option Nat)} {heap : List P} (h : PointsTo objects pointers heap) :
    pointers.Nodup → ∀ s, Refines
      (fun a b => PointsTo a.1 pointers b.1 ∧ a.2 = b.2 ∧
        ∀ address, some address ∉ pointers → b.1[address]? = heap[address]?)
      (forEach f objects s) (forEachPtr f pointers heap s) := by
  induction objects generalizing pointers heap with
  | nil =>
    cases h
    intro _ s
    exact .ok ⟨.nil, rfl, fun _ _ => rfl⟩
  | cons object objects ih =>
    obtain _ | @⟨_, _, _, pointers, ⟨address, rfl, hobject⟩, hrest⟩ := h
    intro hnodup s
    obtain ⟨hfresh, hnodup⟩ := List.nodup_cons.mp hnodup
    obtain ⟨hlt, -⟩ := List.getElem?_eq_some_iff.mp hobject
    have hread : readAt heap address = .ok object := by rw [readAt, hobject]
    simp only [forEach, forEachPtr, deref, hread, ok_bind]
    cases f object s with
    | error e => exact .error e
    | ok a =>
      -- the pointers after this one do not point here, so they find the heap as it was
      have hrest' : PointsTo objects pointers (heap.set address a.1) :=
        PointsTo.congr hrest fun address' h => by
          rw [List.getElem?_set_ne (by rintro rfl; exact hfresh h)]
      have hpass := ih hrest' hnodup a.2
      simp only [ok_bind, storeAt_of_lt a.1 hlt]
      generalize forEach f objects a.2 = x at hpass
      generalize forEachPtr f pointers (heap.set address a.1) a.2 = y at hpass
      cases hpass with
      | error e => exact .error e
      | ok hbc =>
        obtain ⟨hpoints, hstate, hframe⟩ := hbc
        refine .ok ⟨.cons ⟨address, rfl, ?_⟩ hpoints, hstate, fun address' h => ?_⟩
        · rw [hframe address hfresh, List.getElem?_set_self hlt]
        · obtain ⟨hne, h⟩ := not_or.mp (List.mem_cons.not.mp h)
          rw [hframe address' h, List.getElem?_set_ne (by rintro rfl; exact hne rfl)]

/-- The pass over pointers refines the pass over the objects they reach. -/
theorem forEachPtr_refines (f : P → S → Except Fault (P × S)) {objects : List P}
    {pointers : List (Option Nat)} {heap : List P} (h : Reaches objects pointers heap) (s : S) :
    Refines (fun a b => Reaches a.1 pointers b.1 ∧ a.2 = b.2) (forEach f objects s)
      (forEachPtr f pointers heap s) := by
  have hpass := forEachPtr_frame (f := f) h.pointsTo h.nodup s
  generalize forEach f objects s = x at hpass
  generalize forEachPtr f pointers heap s = y at hpass
  cases hpass with
  | error e => exact .error e
  | ok hab => exact .ok ⟨⟨h.nodup, hab.1⟩, hab.2.1⟩

/-! ### New objects -/

theorem makeEach_eq (object : P) (pointers : List (Option Nat)) (heap : List P) :
    makeEach object pointers heap
      = ((List.range' heap.length pointers.length).map some, heap ++ List.replicate pointers.length object) := by
  induction pointers generalizing heap with
  | nil => simp [makeEach]
  | cons pointer pointers ih =>
    simp [makeEach, ih, List.range'_succ, List.replicate_succ]

private theorem pointsTo_replicate {object : P} {heap : List P} :
    ∀ {pointers : List (Option Nat)},
      (∀ pointer ∈ pointers, ∃ address, pointer = some address ∧ heap[address]? = some object) →
      PointsTo (List.replicate pointers.length object) pointers heap := by
  intro pointers
  induction pointers with
  | nil => intro _; exact .nil
  | cons pointer pointers ih =>
    intro h
    exact .cons (h pointer List.mem_cons_self) (ih fun p hp => h p (List.mem_cons_of_mem _ hp))

theorem reaches_makeEach (object : P) (pointers : List (Option Nat)) (heap : List P)
    {rearranged : List (Option Nat)} (hperm : rearranged.Perm (makeEach object pointers heap).1) :
    Reaches (List.replicate pointers.length object) rearranged (makeEach object pointers heap).2 := by
  rw [makeEach_eq] at hperm ⊢
  have hlen : rearranged.length = pointers.length := by
    rw [hperm.length_eq, List.length_map, List.length_range']
  refine ⟨hperm.nodup_iff.mpr ((List.nodup_map_iff (Option.some_injective _)).mpr (List.nodup_range' 1)), ?_⟩
  rw [← hlen]
  refine pointsTo_replicate fun pointer hpointer => ?_
  obtain ⟨address, haddress, rfl⟩ := List.mem_map.mp (hperm.mem_iff.mp hpointer)
  obtain ⟨hle, hlt⟩ := List.mem_range'_1.mp haddress
  refine ⟨address, rfl, ?_⟩
  rw [List.getElem?_append_right hle, List.getElem?_replicate, if_pos (by omega)]

end Storage

import BenchmarkLibs.Base.Fallible
import Mathlib.Data.List.Nodup

/-!
# Shuffled addresses

The loops that exchange randomly drawn slots of a vector of pointers. Whatever is drawn, a loop whose
modulus does not exceed the vector ends with a rearrangement of it (`shuffle_perm`). A loop moves elements
among the slots below its modulus and no others: in two programs these are all slots, and in `RandomizePtrs`
they are the first half (`randomizePtrs_moves_iff`).
-/

namespace BenchmarkLibs

open Fallible

variable {α : Type}

/-- `std::swap(particles[a], particles[b]);` -/
def swapAt (particles : List α) (a b : Nat) : Except Fault (List α) := do
  let x ← readAt particles a
  let y ← readAt particles b
  let particles ← storeAt particles a y
  storeAt particles b x

/-- One turn, which draws `a` and `b` from the results of `rand` that follow those of the turns before. -/
def shuffleTurn (modulus : Nat) (rand : Nat → Nat) (particles : List α) (i : Nat) : Except Fault (List α) := do
  let a ← modulo (rand (2 * i)) modulus
  let b ← modulo (rand (2 * i + 1)) modulus
  if a ≠ b then swapAt particles a b else .ok particles

def shuffle (count modulus : Nat) (rand : Nat → Nat) (particles : List α) : Except Fault (List α) :=
  (List.range count).foldlM (shuffleTurn modulus rand) particles

/-- `DoRandomizeAddresses`. -/
def doRandomizeAddresses (rand : Nat → Nat) (particles : List α) : Except Fault (List α) :=
  let len := particles.length
  shuffle (len / 2) len rand particles

/-- The loop of the Celero `ParticlesPtrVectorFixture::setUp`. -/
def randomizeAddresses (experimentValue : Nat) (rand : Nat → Nat) (particles : List α) :
    Except Fault (List α) :=
  shuffle (experimentValue / 2) experimentValue rand particles

/-- `RandomizePtrs` of the nonius program, where `count` bounds the turns and the drawn indices. -/
def randomizePtrs (rand : Nat → Nat) (pVec : List α) : Except Fault (List α) :=
  let count := pVec.length / 2
  shuffle count count rand pVec

/-! ### Rearrangements -/

theorem swapAt_eq {particles : List α} {a b : Nat} (ha : a < particles.length) (hb : b < particles.length) :
    swapAt particles a b = .ok ((particles.set a particles[b]).set b particles[a]) := by
  have hb' : b < (particles.set a particles[b]).length := by rwa [List.length_set]
  simp only [swapAt, readAt_of_lt ha, readAt_of_lt hb, storeAt_of_lt _ ha, storeAt_of_lt _ hb', ok_bind]

theorem swapAt_perm {particles : List α} {a b : Nat} (ha : a < particles.length) (hb : b < particles.length) :
    Succeeds (swapAt particles a b) (·.Perm particles) :=
  ⟨_, swapAt_eq ha hb, List.set_set_perm ha hb⟩

theorem shuffleTurn_perm {modulus : Nat} (hmodulus : 0 < modulus) (rand : Nat → Nat) {particles : List α}
    (hle : modulus ≤ particles.length) (i : Nat) :
    Succeeds (shuffleTurn modulus rand particles i) (·.Perm particles) := by
  have hlt : ∀ k, k % modulus < particles.length := fun k => lt_of_lt_of_le (Nat.mod_lt k hmodulus) hle
  simp only [shuffleTurn, modulo, if_neg (Nat.pos_iff_ne_zero.mp hmodulus), ok_bind]
  split
  · exact swapAt_perm (hlt _) (hlt _)
  · exact .ok (List.Perm.refl _)

/-- A loop that draws below the length of the vector, where it draws at all, rearranges the vector. -/
theorem shuffle_perm {count modulus : Nat} (rand : Nat → Nat) {particles : List α}
    (hmodulus : 0 < count → 0 < modulus) (hle : modulus ≤ particles.length) :
    Succeeds (shuffle count modulus rand particles) (·.Perm particles) := by
  refine Succeeds.foldlM_range count _ particles (fun _ (shuffled : List α) => shuffled.Perm particles)
    (List.Perm.refl _) ?_
  intro i shuffled hi hperm
  have hturn := shuffleTurn_perm (hmodulus (by omega)) rand (hperm.length_eq ▸ hle) i
  exact hturn.imp fun _ h => h.trans hperm

theorem doRandomizeAddresses_perm (rand : Nat → Nat) (particles : List α) :
    Succeeds (doRandomizeAddresses rand particles) (·.Perm particles) :=
  shuffle_perm rand (by omega) le_rfl

theorem randomizeAddresses_perm (rand : Nat → Nat) (particles : List α) :
    Succeeds (randomizeAddresses particles.length rand particles) (·.Perm particles) :=
  shuffle_perm rand (by omega) le_rfl

theorem randomizePtrs_perm (rand : Nat → Nat) (pVec : List α) :
    Succeeds (randomizePtrs rand pVec) (·.Perm pVec) :=
  shuffle_perm rand id (by omega)

/-- The elements are those of `particles` in some order, and when these are pairwise different each of them
is in exactly one slot. -/
structure Rearranged (particles shuffled : List α) : Prop where
  perm : shuffled.Perm particles
  nodup : particles.Nodup → shuffled.Nodup
  slot : particles.Nodup → ∀ x ∈ particles, ∃! slot : Nat, shuffled[slot]? = some x

theorem rearranged_of_perm {particles shuffled : List α} (h : shuffled.Perm particles) :
    Rearranged particles shuffled where
  perm := h
  nodup hnodup := h.nodup_iff.mpr hnodup
  slot hnodup x hx := by
    have hshuffled : shuffled.Nodup := h.nodup_iff.mpr hnodup
    obtain ⟨slot, hslot, rfl⟩ := List.mem_iff_getElem.mp (h.mem_iff.mpr hx)
    refine ⟨slot, List.getElem?_eq_getElem hslot, fun other hother => ?_⟩
    obtain ⟨hlt, heq⟩ := List.getElem?_eq_some_iff.mp hother
    exact (List.Nodup.getElem_inj_iff hshuffled).mp heq

/-- None of the three loops takes a modulus by zero or leaves the vector, and each rearranges it, whatever
its size and the results of `rand`. -/
theorem shuffles_rearrange (rand : Nat → Nat) (particles : List α) :
    Succeeds (doRandomizeAddresses rand particles) (Rearranged particles) ∧
    Succeeds (randomizePtrs rand particles) (Rearranged particles) ∧
    Succeeds (randomizeAddresses particles.length rand particles) (Rearranged particles) :=
  ⟨(doRandomizeAddresses_perm rand particles).imp fun _ => rearranged_of_perm,
    (randomizePtrs_perm rand particles).imp fun _ => rearranged_of_perm,
    (randomizeAddresses_perm rand particles).imp fun _ => rearranged_of_perm⟩

/-! ### Where elements can go -/

/-- Some results of `rand` up to `randMax` make the loop put the element at `i` of every vector of `n`
elements at `j`. -/
def Moves (loop : ∀ {α : Type}, (Nat → Nat) → List α → Except Fault (List α)) (randMax n i j : Nat) : Prop :=
  ∃ rand : Nat → Nat, (∀ k, rand k ≤ randMax) ∧ ∀ {α : Type} (particles : List α), particles.length = n →
    Succeeds (loop rand particles) fun shuffled => shuffled[j]? = particles[i]?

theorem swapAt_frame {particles swapped : List α} {a b : Nat} (h : swapAt particles a b = .ok swapped) {k : Nat}
    (ha : k ≠ a) (hb : k ≠ b) : swapped[k]? = particles[k]? := by
  obtain ⟨x, -, h⟩ := bind_eq_ok.mp h
  obtain ⟨y, -, h⟩ := bind_eq_ok.mp h
  obtain ⟨stored, hstored, h⟩ := bind_eq_ok.mp h
  rw [storeAt] at hstored h
  split_ifs at hstored h
  cases hstored
  cases h
  rw [List.getElem?_set_ne (Ne.symm hb), List.getElem?_set_ne (Ne.symm ha)]

theorem shuffleTurn_frame {modulus : Nat} {rand : Nat → Nat} {particles turned : List α} {i : Nat}
    (h : shuffleTurn modulus rand particles i = .ok turned) {k : Nat} (hk : modulus ≤ k) :
    turned[k]? = particles[k]? := by
  have hdrawn : ∀ {value drawn : Nat}, modulo value modulus = .ok drawn → k ≠ drawn := by
    intro value drawn hmodulo
    rw [modulo] at hmodulo
    split_ifs at hmodulo with hzero
    cases hmodulo
    have := Nat.mod_lt value (Nat.pos_of_ne_zero hzero)
    omega
  obtain ⟨a, ha, h⟩ := bind_eq_ok.mp h
  obtain ⟨b, hb, h⟩ := bind_eq_ok.mp h
  split_ifs at h
  · exact swapAt_frame h (hdrawn ha) (hdrawn hb)
  · cases h
    rfl

/-- The slots from the modulus on keep their elements. -/
theorem shuffle_frame {count modulus : Nat} {rand : Nat → Nat} {particles shuffled : List α}
    (h : shuffle count modulus rand particles = .ok shuffled) {k : Nat} (hk : modulus ≤ k) :
    shuffled[k]? = particles[k]? :=
  foldlM_preserves (P := fun turned : List α => turned[k]? = particles[k]?)
    (fun _ _ _ _ hturn hs => (shuffleTurn_frame hturn hk).trans hs) h rfl

/-- Results of `rand` for a first turn with `i` and `j` and for others with one slot drawn twice. -/
def drawOnce (i j : Nat) : Nat → Nat
  | 0 => i
  | 1 => j
  | _ => 0

theorem shuffle_drawOnce {count modulus i j : Nat} {particles : List α} (hcount : 0 < count)
    (hle : modulus ≤ particles.length) (hi : i < modulus) (hj : j < modulus) (hij : i ≠ j) :
    Succeeds (shuffle count modulus (drawOnce i j) particles) fun shuffled => shuffled[j]? = particles[i]? := by
  have hmodulus : modulus ≠ 0 := by omega
  have hi' : i < particles.length := by omega
  have hj' : j < particles.length := by omega
  have hloop := Succeeds.foldlM_range count (shuffleTurn modulus (drawOnce i j)) particles
    (fun k turned => if k = 0 then turned = particles else turned[j]? = particles[i]?) rfl (by
      intro k turned _ hturned
      cases k with
      | zero =>
        rw [if_pos rfl] at hturned
        subst hturned
        simp only [shuffleTurn, modulo, if_neg hmodulus, ok_bind, drawOnce, Nat.mul_zero, Nat.zero_add,
          Nat.mod_eq_of_lt hi, Nat.mod_eq_of_lt hj, if_pos hij, swapAt_eq hi' hj']
        refine .ok ?_
        rw [if_neg (by decide), List.getElem?_set_self (by rwa [List.length_set]), List.getElem?_eq_getElem hi']
      | succ k =>
        have hsame : shuffleTurn modulus (drawOnce i j) turned (k + 1) = .ok turned := by
          simp only [shuffleTurn, modulo, if_neg hmodulus, ok_bind, Nat.mul_succ, drawOnce]
          simp
        rw [hsame]
        exact .ok hturned)
  exact hloop.imp fun _ h => (if_neg hcount.ne').mp h

theorem drawOnce_le {i j randMax : Nat} (hi : i ≤ randMax) (hj : j ≤ randMax) : ∀ k, drawOnce i j k ≤ randMax
  | 0 => hi
  | 1 => hj
  | _ + 2 => Nat.zero_le _

section Positions

variable {n randMax i j : Nat}

theorem doRandomizeAddresses_moves (hi : i < n) (hj : j < n) (hij : i ≠ j) (hmax : n - 1 ≤ randMax) :
    Moves doRandomizeAddresses randMax n i j := by
  refine ⟨drawOnce i j, drawOnce_le (by omega) (by omega), ?_⟩
  rintro α particles rfl
  exact shuffle_drawOnce (by omega) le_rfl hi hj hij

theorem randomizeAddresses_moves (hi : i < n) (hj : j < n) (hij : i ≠ j) (hmax : n - 1 ≤ randMax) :
    Moves (randomizeAddresses n) randMax n i j := by
  refine ⟨drawOnce i j, drawOnce_le (by omega) (by omega), ?_⟩
  rintro α particles rfl
  exact shuffle_drawOnce (by omega) le_rfl hi hj hij

/-- `RandomizePtrs` moves elements within the first half of the vector only. -/
theorem randomizePtrs_moves_iff (hi : i < n) (hj : j < n) (hij : i ≠ j) (hmax : n - 1 ≤ randMax) :
    Moves randomizePtrs randMax n i j ↔ i < n / 2 ∧ j < n / 2 := by
  constructor
  · rintro ⟨rand, -, hmoves⟩
    -- the vector of its own positions shows where each element has gone
    obtain ⟨shuffled, hrun, hmoved⟩ := hmoves (List.range n) List.length_range
    obtain ⟨_, hrun', hperm⟩ := randomizePtrs_perm rand (List.range n)
    obtain rfl := Except.ok.inj (hrun.symm.trans hrun')
    have hkept : ∀ k, n / 2 ≤ k → k < n → shuffled[k]? = some k := by
      intro k hk hkn
      have hcount : (List.range n).length / 2 ≤ k := by rwa [List.length_range]
      rw [shuffle_frame hrun hcount, List.getElem?_range hkn]
    rw [List.getElem?_range hi] at hmoved
    by_contra hhalf
    rcases Nat.lt_or_ge j (n / 2) with hj' | hj'
    · have hi' := hkept i (by omega) hi
      obtain ⟨hilt, hieq⟩ := List.getElem?_eq_some_iff.mp hi'
      obtain ⟨hjlt, hjeq⟩ := List.getElem?_eq_some_iff.mp hmoved
      have hnodup : shuffled.Nodup := hperm.nodup_iff.mpr List.nodup_range
      exact hij ((List.Nodup.getElem_inj_iff hnodup).mp (hieq.trans hjeq.symm))
    · have hj'' := hkept j hj' hj
      rw [hmoved] at hj''
      exact hij (Option.some.inj hj'')
  · rintro ⟨hi', hj'⟩
    refine ⟨drawOnce i j, drawOnce_le (by omega) (by omega), ?_⟩
    rintro α particles rfl
    exact shuffle_drawOnce (by omega) (by omega) hi' hj' hij

/-- All three loops can take the element at `i` to `j` exactly when both are in the first half of the vector,
because `RandomizePtrs` draws its indices below the half. -/
theorem shuffles_move_iff (n randMax i j : Nat) (hi : i < n) (hj : j < n) (hij : i ≠ j)
    (hmax : n - 1 ≤ randMax) :
    (Moves doRandomizeAddresses randMax n i j ∧ Moves randomizePtrs randMax n i j ∧
      Moves (randomizeAddresses n) randMax n i j) ↔ i < n / 2 ∧ j < n / 2 := by
  rw [← randomizePtrs_moves_iff hi hj hij hmax]
  constructor
  · rintro ⟨-, hmoves, -⟩
    exact hmoves
  · intro hmoves
    exact ⟨doRandomizeAddresses_moves hi hj hij hmax, hmoves, randomizeAddresses_moves hi hj hij hmax⟩

end Positions

theorem shuffles_move_iff_four : Moves doRandomizeAddresses 32767 4 0 1 ∧ Moves randomizePtrs 32767 4 0 1 ∧
    Moves (randomizeAddresses 4) 32767 4 0 1 :=
  (shuffles_move_iff 4 32767 0 1 (by decide) (by decide) (by decide) (by decide)).mpr (by decide)

/-- In a vector of two elements `RandomizePtrs` never takes the first to the place of the second. -/
theorem shuffles_stuck_at_two : ¬ (Moves doRandomizeAddresses 32767 2 0 1 ∧ Moves randomizePtrs 32767 2 0 1 ∧
    Moves (randomizeAddresses 2) 32767 2 0 1) := by
  rintro ⟨-, hmoves, -⟩
  exact absurd ((randomizePtrs_moves_iff (by decide) (by decide) (by decide) (by decide)).mp hmoves) (by decide)

end BenchmarkLibs

import Mathlib.Data.Nat.Bitwise

/-!
# Boolean sequences packed into words

The first `n` values of a boolean function laid end to end in words of `w` bits, the first value in the
lowest bit, and zeros after the last one. Reading a bit back and packing are inverse to one another
between the sequences of length `n` and the zero-padded lists of words (`bitAt_pack`, `pack_bitAt`). The
last section is about an array that holds one value in each of its entries, as a mask, and about the
disjunction of such entries.
-/

namespace BitPacking

/-! ### One word -/

/-- The word whose bit `j` is `f j`. -/
def packWord (w : Nat) (f : Nat → Bool) : BitVec w :=
  (BitVec.ofBoolListLE ((List.range w).map f)).setWidth w

@[simp] theorem getLsbD_packWord (w : Nat) (f : Nat → Bool) (j : Nat) :
    (packWord w f).getLsbD j = (decide (j < w) && f j) := by
  rw [packWord, BitVec.getLsbD_setWidth, BitVec.getLsbD_ofBoolListLE, List.getD_eq_getElem?_getD]
  by_cases hj : j < w <;> simp [hj]

theorem packWord_congr {w : Nat} {f g : Nat → Bool} (h : ∀ j, j < w → f j = g j) :
    packWord w f = packWord w g := by
  apply BitVec.eq_of_getLsbD_eq
  intro j hj
  rw [getLsbD_packWord, getLsbD_packWord, h j hj]

theorem ofNat_eq_packWord {w value : Nat} {f : Nat → Bool} (h : ∀ j, j < w → value.testBit j = f j) :
    BitVec.ofNat w value = packWord w f := by
  apply BitVec.eq_of_getLsbD_eq
  intro j hj
  rw [BitVec.getLsbD_ofNat, getLsbD_packWord, h j hj]

/-! ### A sequence -/

def wordCount (w n : Nat) : Nat := (n + (w - 1)) / w

theorem lt_wordCount {w n b : Nat} (hw : 0 < w) : b < wordCount w n ↔ w * b < n := by
  rw [wordCount, Nat.lt_div_iff_mul_lt hw, Nat.mul_comm]
  omega

/-- Word `b` of the first `n` values: the values from `w * b` on, zero from position `n` on. -/
def packedWord (w : Nat) (f : Nat → Bool) (n b : Nat) : BitVec w :=
  packWord w fun j => decide (w * b + j < n) && f (w * b + j)

def pack (w : Nat) (f : Nat → Bool) (n : Nat) : List (BitVec w) :=
  (List.range (wordCount w n)).map (packedWord w f n)

/-- The bit at position `pos` of a list of words. -/
def bitAt {w : Nat} (words : List (BitVec w)) (pos : Nat) : Bool :=
  (words.getD (pos / w) 0).getLsbD (pos % w)

@[simp] theorem length_pack (w : Nat) (f : Nat → Bool) (n : Nat) :
    (pack w f n).length = wordCount w n := by
  simp [pack]

theorem getElem?_pack (w : Nat) (f : Nat → Bool) {n b : Nat} (hb : b < wordCount w n) :
    (pack w f n)[b]? = some (packedWord w f n b) := by
  simp [pack, hb]

theorem take_pack (w : Nat) (f : Nat → Bool) {n b : Nat} (hb : b ≤ wordCount w n) :
    (pack w f n).take b = (List.range b).map (packedWord w f n) := by
  rw [pack, ← List.map_take, List.take_range, Nat.min_eq_left hb]

theorem packedWord_full {w n b : Nat} (f : Nat → Bool) (hfull : w * (b + 1) ≤ n) :
    packedWord w f n b = packWord w fun j => f (w * b + j) := by
  apply packWord_congr
  intro j hj
  rw [Nat.mul_succ] at hfull
  simp [show w * b + j < n by omega]

theorem packedWord_congr {w n b : Nat} {f g : Nat → Bool} (h : ∀ i, i < n → f i = g i) :
    packedWord w f n b = packedWord w g n b := by
  apply packWord_congr
  intro j _
  by_cases hj : w * b + j < n
  · simp [hj, h _ hj]
  · simp [hj]

theorem pack_congr {w n : Nat} {f g : Nat → Bool} (h : ∀ i, i < n → f i = g i) :
    pack w f n = pack w g n :=
  List.map_congr_left fun _ _ => packedWord_congr h

/-- What is packed is read back, and the padding reads as zero. -/
theorem bitAt_pack {w : Nat} (hw : 0 < w) (f : Nat → Bool) (n pos : Nat) :
    bitAt (pack w f n) pos = (decide (pos < n) && f pos) := by
  have hsplit : w * (pos / w) + pos % w = pos := Nat.div_add_mod pos w
  by_cases hb : pos / w < wordCount w n
  · rw [bitAt, List.getD_eq_getElem?_getD, getElem?_pack w f hb, Option.getD_some, packedWord,
      getLsbD_packWord, hsplit]
    simp [Nat.mod_lt pos hw]
  · have hlen : (pack w f n)[pos / w]? = none := by simpa [pack] using hb
    have hpos : ¬ pos < n := by
      rw [lt_wordCount hw] at hb
      have := Nat.mul_div_le pos w
      omega
    simp [bitAt, List.getD_eq_getElem?_getD, hlen, hpos]

/-- A list of words with zeros from position `n` on is the packing of its own bits. -/
theorem pack_bitAt {w n : Nat} (hw : 0 < w) {words : List (BitVec w)} (hlen : words.length = wordCount w n)
    (hpad : ∀ pos, n ≤ pos → pos < w * words.length → bitAt words pos = false) :
    pack w (bitAt words) n = words := by
  apply List.ext_getElem
  · simp [hlen]
  · intro b hb hb'
    simp only [pack, List.getElem_map, List.getElem_range, packedWord]
    apply BitVec.eq_of_getLsbD_eq
    intro j hj
    have hdiv : (w * b + j) / w = b := by
      rw [Nat.mul_add_div hw, Nat.div_eq_of_lt hj, Nat.add_zero]
    have hmod : (w * b + j) % w = j := by
      rw [Nat.mul_add_mod, Nat.mod_eq_of_lt hj]
    have hbit : bitAt words (w * b + j) = words[b].getLsbD j := by
      rw [bitAt, hdiv, hmod, List.getD_eq_getElem?_getD, List.getElem?_eq_getElem hb', Option.getD_some]
    rw [getLsbD_packWord, hbit]
    by_cases hn : w * b + j < n
    · simp [hj, hn]
    · have hlast : w * b + j < w * words.length := by
        have := Nat.mul_le_mul_left w (Nat.succ_le_of_lt hb')
        rw [Nat.mul_succ] at this
        omega
      have hzero := hpad (w * b + j) (by omega) hlast
      rw [hbit] at hzero
      rw [hzero, Bool.and_false, Bool.and_false]

/-! ### One value an entry -/

def maskOf (value : Bool) (j : Nat) : Nat := if value then 2 ^ j else 0

theorem testBit_maskOf (value : Bool) (j p : Nat) :
    (maskOf value j).testBit p = (decide (j = p) && value) := by
  cases value
  · simp [maskOf]
  · simp [maskOf, Nat.testBit_two_pow]

theorem maskOf_lt {w j : Nat} (value : Bool) (hj : j < w) : maskOf value j < 2 ^ w := by
  cases value
  · exact Nat.two_pow_pos w
  · simpa [maskOf] using Nat.pow_lt_pow_right (by omega : 1 < 2) hj

/-- Entry `j` of the array holds value `j` of `f` at bit `j`. -/
def Masks {w k : Nat} (f : Nat → Bool) (entries : Vector (BitVec w) k) : Prop :=
  ∀ j (hj : j < k), entries[j].toNat = maskOf (f j) j

def orEntries {w k : Nat} (entries : Vector (BitVec w) k) (indices : List Nat) : Nat :=
  indices.foldl (fun acc j => acc ||| (entries[j]?.getD 0).toNat) 0

private theorem testBit_foldl_or {w k : Nat} (entries : Vector (BitVec w) k) (p : Nat) :
    ∀ (indices : List Nat) (acc : Nat),
      (indices.foldl (fun acc j => acc ||| (entries[j]?.getD 0).toNat) acc).testBit p
        = (acc.testBit p || indices.any fun j => (entries[j]?.getD 0).getLsbD p) := by
  intro indices
  induction indices with
  | nil => simp
  | cons j indices ih =>
    intro acc
    rw [List.foldl_cons, ih, Nat.testBit_or, List.any_cons, BitVec.testBit_toNat, Bool.or_assoc]

theorem testBit_orEntries {w k : Nat} (entries : Vector (BitVec w) k) (indices : List Nat) (p : Nat) :
    (orEntries entries indices).testBit p = indices.any fun j => (entries[j]?.getD 0).getLsbD p := by
  rw [orEntries, testBit_foldl_or, Nat.zero_testBit, Bool.false_or]

theorem orEntries_lt {w k : Nat} (entries : Vector (BitVec w) k) (indices : List Nat) :
    orEntries entries indices < 2 ^ w := by
  apply Nat.lt_pow_two_of_testBit
  intro p hp
  rw [testBit_orEntries]
  simp [BitVec.getLsbD_of_ge _ _ hp]

theorem Masks.testBit_orEntries {w k : Nat} {f : Nat → Bool} {entries : Vector (BitVec w) k}
    (h : Masks f entries) (indices : List Nat) (hindices : ∀ j ∈ indices, j < k) (p : Nat) :
    (orEntries entries indices).testBit p = (decide (p ∈ indices) && f p) := by
  have hentry : ∀ j ∈ indices, (entries[j]?.getD 0).getLsbD p = (decide (j = p) && f j) := by
    intro j hj
    have hjk := hindices j hj
    rw [Vector.getElem?_eq_getElem hjk, Option.getD_some, ← BitVec.testBit_toNat, h j hjk, testBit_maskOf]
  rw [BitPacking.testBit_orEntries, Bool.eq_iff_iff]
  simp only [List.any_eq_true, Bool.and_eq_true, decide_eq_true_eq]
  constructor
  · rintro ⟨j, hj, hbit⟩
    rw [hentry j hj] at hbit
    simp only [Bool.and_eq_true, decide_eq_true_eq] at hbit
    obtain ⟨rfl, hf⟩ := hbit
    exact ⟨hj, hf⟩
  · rintro ⟨hp, hf⟩
    exact ⟨p, hp, by rw [hentry p hp]; simpa using hf⟩

end BitPacking

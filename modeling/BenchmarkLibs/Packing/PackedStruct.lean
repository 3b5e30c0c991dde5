import BenchmarkLibs.Packing.Scalar
import Mathlib.Tactic.IntervalCases

/-!
# The bit-field packer

`PackedStructVersion` keeps eight booleans in a `bool8`, a struct of eight fields of one bit. The body assigns
them by name, a full block from the first to the last and the left-over elements from the last to the first,
and `getBoolAt` selects them by a `switch`. The buffer holds the comparisons with zeros after them
(`packedStructVersion_eq`); where bit-fields are allocated from the least significant bit of a byte, it is
the buffer of the other packers.
-/

namespace BenchmarkLibs

open BitPacking Overwrite Counted Fallible

/-! ### `bool8` -/

structure Bool8 where
  val0 : BitVec 1
  val1 : BitVec 1
  val2 : BitVec 1
  val3 : BitVec 1
  val4 : BitVec 1
  val5 : BitVec 1
  val6 : BitVec 1
  val7 : BitVec 1
  deriving DecidableEq

namespace Bool8

/-- The field that the `switch` of `getBoolAt` selects; after the cases 0 to 6 it falls out to `val7`. -/
def val (element : Bool8) : Nat → BitVec 1
  | 0 => element.val0
  | 1 => element.val1
  | 2 => element.val2
  | 3 => element.val3
  | 4 => element.val4
  | 5 => element.val5
  | 6 => element.val6
  | _ => element.val7

/-- `out.val0 = value;` to `out.val7 = value;`, by the number of the field. -/
def assign (out : Bool8) (value : Bool) : Nat → Bool8
  | 0 => { out with val0 := BitVec.ofBool value }
  | 1 => { out with val1 := BitVec.ofBool value }
  | 2 => { out with val2 := BitVec.ofBool value }
  | 3 => { out with val3 := BitVec.ofBool value }
  | 4 => { out with val4 := BitVec.ofBool value }
  | 5 => { out with val5 := BitVec.ofBool value }
  | 6 => { out with val6 := BitVec.ofBool value }
  | 7 => { out with val7 := BitVec.ofBool value }
  | _ => out

/-- The byte of a struct whose fields are allocated from the least significant bit on. -/
def toByte (element : Bool8) : Byte :=
  element.val7 ++ element.val6 ++ element.val5 ++ element.val4 ++ element.val3 ++ element.val2 ++
    element.val1 ++ element.val0

def ofFields (f : Nat → Bool) : Bool8 :=
  ⟨BitVec.ofBool (f 0), BitVec.ofBool (f 1), BitVec.ofBool (f 2), BitVec.ofBool (f 3), BitVec.ofBool (f 4),
    BitVec.ofBool (f 5), BitVec.ofBool (f 6), BitVec.ofBool (f 7)⟩

theorem val_ofFields (f : Nat → Bool) {k : Nat} (hk : k < 8) : (ofFields f).val k = BitVec.ofBool (f k) := by
  interval_cases k <;> rfl

theorem val_assign (out : Bool8) (value : Bool) {j k : Nat} (hj : j < 8) (hk : k < 8) :
    (out.assign value j).val k = if j = k then BitVec.ofBool value else out.val k := by
  interval_cases j <;> interval_cases k <;> rfl

theorem ext_val {a b : Bool8} (h : ∀ k, k < 8 → a.val k = b.val k) : a = b := by
  obtain ⟨a0, a1, a2, a3, a4, a5, a6, a7⟩ := a
  obtain ⟨b0, b1, b2, b3, b4, b5, b6, b7⟩ := b
  obtain rfl : a0 = b0 := h 0 (by decide)
  obtain rfl : a1 = b1 := h 1 (by decide)
  obtain rfl : a2 = b2 := h 2 (by decide)
  obtain rfl : a3 = b3 := h 3 (by decide)
  obtain rfl : a4 = b4 := h 4 (by decide)
  obtain rfl : a5 = b5 := h 5 (by decide)
  obtain rfl : a6 = b6 := h 6 (by decide)
  obtain rfl : a7 = b7 := h 7 (by decide)
  rfl

theorem getLsbD_toByte (element : Bool8) {k : Nat} (hk : k < 8) :
    element.toByte.getLsbD k = (element.val k).getLsbD 0 := by
  simp only [toByte, BitVec.getLsbD_append]
  interval_cases k <;> rfl

theorem toByte_ofFields (f : Nat → Bool) : (ofFields f).toByte = packWord 8 f := by
  apply BitVec.eq_of_getLsbD_eq
  intro j hj
  rw [getLsbD_toByte _ hj, val_ofFields f hj, getLsbD_packWord, decide_eq_true hj, Bool.true_and]
  cases f j
  · rfl
  · rfl

end Bool8

/-! ### The body -/

structure PackedStructState where
  out : Bool8
  pInputData : Nat
  pOutputByte : Nat
  outputValues : List Bool8

/-- `out.valK = pInputData[K] > threshold;` -/
def assignField (threshold : Int) (inputValues : List Int) (pInputData : Nat) (out : Bool8) (k : Nat) :
    Except Fault Bool8 := do
  let value ← readAt inputValues (pInputData + k)
  .ok (out.assign (decide (value > threshold)) k)

/-- `*pOutputByte++ = out;` -/
def PackedStructState.store (s : PackedStructState) : Except Fault PackedStructState := do
  let outputValues ← storeAt s.outputValues s.pOutputByte s.out
  .ok { s with outputValues := outputValues, pOutputByte := s.pOutputByte + 1 }

def packedStructBlock (threshold : Int) (inputValues : List Int) (s : PackedStructState) :
    Except Fault PackedStructState := do
  let out ← [0, 1, 2, 3, 4, 5, 6, 7].foldlM (assignField threshold inputValues s.pInputData) s.out
  let s ← { s with out := out }.store
  .ok { s with pInputData := s.pInputData + 8 }

/-- The block of the left-over elements. Its `pInput` and `Threshold`, which are declared nowhere, are read as
`pInputData` and `ThresholdValue`. -/
def packedStructTail (threshold : Int) (inputValues : List Int) (restW : Nat) (s : PackedStructState) :
    Except Fault PackedStructState := do
  let out ← [6, 5, 4, 3, 2, 1, 0].foldlM (fun out k =>
    if restW > k then assignField threshold inputValues s.pInputData out k else .ok out)
    ⟨0, 0, 0, 0, 0, 0, 0, 0⟩
  { s with out := out }.store

/-- `PackedStructVersion`, on an output buffer that holds `outputValues` before and a local that holds `out`. -/
def packedStructVersion (threshold : Int) (arrayLength : Nat) (inputValues : List Int)
    (outputValues : List Bool8) (out : Bool8) : Except Fault (List Bool8) := do
  let lenDivBy8 := arrayLength / 8 * 8
  let s ← forLoop lenDivBy8 8 (fun _ s => s >>= packedStructBlock threshold inputValues)
    (.ok ⟨out, 0, 0, outputValues⟩)
  let s ← if arrayLength &&& 7 ≠ 0 then packedStructTail threshold inputValues (arrayLength &&& 7) s else .ok s
  .ok s.outputValues

/-- `PackedStructFixture::getBoolAt`. -/
def PackedStructFixture.getBoolAt (pos : Nat) (outputValues : List Bool8) : Except Fault Bool := do
  let bytePos := pos / 8
  let bitPos := pos % 8
  let element ← readAt outputValues bytePos
  .ok (element.val bitPos != 0)

/-! ### What the body does -/

def packedElement (f : Nat → Bool) (n b : Nat) : Bool8 :=
  .ofFields fun j => decide (8 * b + j < n) && f (8 * b + j)

theorem toByte_packedElement (f : Nat → Bool) (n b : Nat) :
    (packedElement f n b).toByte = packedWord 8 f n b :=
  Bool8.toByte_ofFields _

theorem assignField_eq (threshold : Int) {inputValues : List Int} {pInputData k : Nat} (out : Bool8)
    (hk : pInputData + k < inputValues.length) :
    assignField threshold inputValues pInputData out k
      = .ok (out.assign (above threshold inputValues (pInputData + k)) k) := by
  rw [assignField, readAt_of_lt hk, above_eq threshold hk]
  rfl

/-- Fields assigned in any order, where a field left out keeps its value. -/
theorem assignFields_succeeds (threshold : Int) {inputValues : List Int} (pInputData restW : Nat)
    (hrest : pInputData + restW ≤ inputValues.length) :
    ∀ (fields : List Nat) (out : Bool8), (∀ k ∈ fields, k < 8) →
      Succeeds (fields.foldlM (fun out k =>
        if restW > k then assignField threshold inputValues pInputData out k else .ok out) out) fun out' =>
      ∀ k, k < 8 → out'.val k = if k ∈ fields ∧ k < restW then
        BitVec.ofBool (above threshold inputValues (pInputData + k)) else out.val k := by
  intro fields
  induction fields with
  | nil => intro out _; exact .ok (by simp)
  | cons j fields ih =>
    intro out hfields
    obtain ⟨hj, hfields⟩ := List.forall_mem_cons.mp hfields
    rw [List.foldlM_cons]
    by_cases hassigned : restW > j
    · rw [if_pos hassigned, assignField_eq threshold out (by omega), ok_bind]
      refine (ih _ hfields).imp fun out' hout' k hk => ?_
      rw [hout' k hk, Bool8.val_assign _ _ hj hk]
      by_cases hjk : j = k
      · subst hjk
        simp [hassigned]
      · simp [hjk, Ne.symm hjk]
    · rw [if_neg hassigned, ok_bind]
      refine (ih _ hfields).imp fun out' hout' k hk => ?_
      have hne : k < restW → k ≠ j := by omega
      rw [hout' k hk]
      by_cases hrest : k < restW
      · simp [hrest, hne hrest]
      · simp [hrest]

theorem packedStructBlock_fields (threshold : Int) {inputValues : List Int} {k : Nat} (out : Bool8)
    (hfull : 8 * (k + 1) ≤ inputValues.length) :
    [0, 1, 2, 3, 4, 5, 6, 7].foldlM (assignField threshold inputValues (8 * k)) out
      = .ok (packedElement (above threshold inputValues) inputValues.length k) := by
  obtain ⟨out', hrun, hout'⟩ := assignFields_succeeds threshold (8 * k) 8 hfull [0, 1, 2, 3, 4, 5, 6, 7] out
    (by decide)
  -- with eight elements left no field is left out
  have hassigned : [0, 1, 2, 3, 4, 5, 6, 7].foldlM (assignField threshold inputValues (8 * k)) out = .ok out' :=
    hrun
  rw [hassigned]
  congr 1
  apply Bool8.ext_val
  intro j hj
  rw [hout' j hj, if_pos ⟨mem_blockEntries hj, hj⟩, packedElement, Bool8.val_ofFields _ hj,
    decide_eq_true (by omega), Bool.true_and]

/-- A field of the last element is assigned when the element it is for is there, whatever the order. -/
theorem packedStructTail_fields (threshold : Int) {inputValues : List Int} {b restW : Nat}
    (hrest : 8 * b + restW = inputValues.length) (hlt : restW < 8) :
    [6, 5, 4, 3, 2, 1, 0].foldlM (fun out k =>
      if restW > k then assignField threshold inputValues (8 * b) out k else .ok out) ⟨0, 0, 0, 0, 0, 0, 0, 0⟩
      = .ok (packedElement (above threshold inputValues) inputValues.length b) := by
  obtain ⟨out', hrun, hout'⟩ := assignFields_succeeds threshold (8 * b) restW hrest.le [6, 5, 4, 3, 2, 1, 0]
    ⟨0, 0, 0, 0, 0, 0, 0, 0⟩ (by decide)
  rw [hrun]
  congr 1
  apply Bool8.ext_val
  intro j hj
  rw [hout' j hj, packedElement, Bool8.val_ofFields _ hj]
  by_cases hj' : j < restW
  · have hmem : j ∈ [6, 5, 4, 3, 2, 1, 0] := by
      simp only [List.mem_cons, List.not_mem_nil, or_false]; omega
    rw [if_pos ⟨hmem, hj'⟩, decide_eq_true (by omega), Bool.true_and]
  · rw [if_neg fun h => hj' h.2, decide_eq_false (by omega), Bool.false_and]
    interval_cases j <;> rfl

/-- After `k` blocks; the local `out` holds anything. -/
structure PackedStructInv (f : Nat → Bool) (n : Nat) (init : List Bool8) (k : Nat) (s : PackedStructState) :
    Prop where
  input : s.pInputData = 8 * k
  output : s.pOutputByte = k
  outputValues : s.outputValues = overwrite (packedElement f n) (Finset.range k) init

theorem PackedStructInv.store {f : Nat → Bool} {n k : Nat} {init : List Bool8} {s : PackedStructState}
    (h : PackedStructInv f n init k s) (hk : k < init.length) :
    { s with out := packedElement f n k }.store = .ok { s with
      out := packedElement f n k
      outputValues := overwrite (packedElement f n) (Finset.range (k + 1)) init
      pOutputByte := k + 1 } := by
  have hlt : k < s.outputValues.length := by rwa [h.outputValues, length_overwrite]
  rw [PackedStructState.store, h.output, storeAt_of_lt _ hlt, h.outputValues, set_overwrite_range]
  rfl

theorem packedStructBlock_inv (threshold : Int) {inputValues : List Int} {k : Nat} {init : List Bool8}
    {s : PackedStructState} (h : PackedStructInv (above threshold inputValues) inputValues.length init k s)
    (hfull : 8 * (k + 1) ≤ inputValues.length) (hk : k < init.length) :
    Succeeds (packedStructBlock threshold inputValues s)
      (PackedStructInv (above threshold inputValues) inputValues.length init (k + 1)) := by
  have hfields := packedStructBlock_fields threshold s.out hfull
  rw [← h.input] at hfields
  rw [packedStructBlock, hfields, ok_bind, h.store hk]
  exact .ok ⟨by simp only [h.input]; omega, rfl, rfl⟩

/-- The buffer after the body holds the comparisons, eight to an element, and nothing of what it held before. -/
theorem packedStructVersion_eq (threshold : Int) (inputValues : List Int) {outputValues : List Bool8}
    (out : Bool8) (hlen : outputValues.length = wordCount 8 inputValues.length) :
    packedStructVersion threshold inputValues.length inputValues outputValues out
      = .ok ((List.range (wordCount 8 inputValues.length)).map
        (packedElement (above threshold inputValues) inputValues.length)) := by
  have hloop := forLoop_multiple (inputValues.length / 8)
    (fun _ (s : Except Fault PackedStructState) => s >>= packedStructBlock threshold inputValues)
    (.ok ⟨out, 0, 0, outputValues⟩) (by decide : 0 < 8)
    (fun k s => Succeeds s (PackedStructInv (above threshold inputValues) inputValues.length outputValues k))
    (.ok ⟨rfl, rfl, (overwrite_empty _ outputValues).symm⟩) (fun k s hk h => h.bind fun s hs =>
      packedStructBlock_inv threshold hs (by omega) (by rw [hlen, wordCount_eight]; omega))
  rw [Nat.mul_comm] at hloop
  obtain ⟨s, hrun, hinv⟩ := hloop
  simp only [packedStructVersion, and_seven, hrun, ok_bind]
  by_cases hrest : inputValues.length % 8 = 0
  · have hcount : inputValues.length / 8 = wordCount 8 inputValues.length := by rw [wordCount_eight]; omega
    rw [if_neg (by simpa using hrest), hinv.outputValues, hcount, ← hlen,
      overwrite_full _ fun b hb => Finset.mem_range.mpr hb]
  · have hcount : inputValues.length / 8 + 1 = wordCount 8 inputValues.length := by rw [wordCount_eight]; omega
    have hfields := packedStructTail_fields threshold (b := inputValues.length / 8)
      (Nat.div_add_mod inputValues.length 8) (by omega)
    rw [← hinv.input] at hfields
    rw [if_pos hrest, packedStructTail, hfields, ok_bind, hinv.store (by omega), ok_bind, hcount, ← hlen,
      overwrite_full _ fun b hb => Finset.mem_range.mpr hb]

/-! ### Reading back -/

theorem PackedStructFixture.getBoolAt_packed (f : Nat → Bool) {n i : Nat} (hi : i < n) :
    PackedStructFixture.getBoolAt i ((List.range (wordCount 8 n)).map (packedElement f n)) = .ok (f i) := by
  have hlt : i / 8 < ((List.range (wordCount 8 n)).map (packedElement f n)).length := by
    rw [List.length_map, List.length_range, wordCount_eight]
    omega
  rw [PackedStructFixture.getBoolAt, readAt_of_lt hlt, ok_bind, List.getElem_map, List.getElem_range,
    packedElement, Bool8.val_ofFields _ (Nat.mod_lt i (by decide)), Nat.div_add_mod, decide_eq_true hi,
    Bool.true_and]
  cases f i
  · rfl
  · rfl

/-- `getBoolAt` reads the comparisons back, the fields of the last element after them are zero, and as bytes
the buffer is the one that `NotDepentendVersion` leaves. -/
theorem packedStructVersion_readBack (threshold : Int) (inputValues : List Int) (outputValues : List Bool8)
    (out : Bool8) (outputBytes : List Byte) (hout : outputValues.length = (inputValues.length + 7) / 8)
    (hbytes : outputBytes.length = (inputValues.length + 7) / 8) :
    ∃ buffer, packedStructVersion threshold inputValues.length inputValues outputValues out = .ok buffer ∧
      (∀ i (hi : i < inputValues.length),
        PackedStructFixture.getBoolAt i buffer = .ok (decide (inputValues[i] > threshold))) ∧
      (∀ b element, buffer[b]? = some element →
        ∀ k, k < 8 → inputValues.length ≤ 8 * b + k → element.val k = 0) ∧
      buffer.map Bool8.toByte
        = (notDepentendVersion threshold inputValues.length inputValues outputBytes).out := by
  refine ⟨_, packedStructVersion_eq threshold inputValues out hout, fun i hi => ?_, ?_, ?_⟩
  · rw [PackedStructFixture.getBoolAt_packed _ hi, above_eq threshold hi]
  · intro b element helement k hk hpad
    rw [List.getElem?_map, Option.map_eq_some_iff] at helement
    obtain ⟨_, hb, rfl⟩ := helement
    obtain ⟨-, rfl⟩ := List.getElem?_eq_some_iff.mp hb
    rw [List.getElem_range, packedElement, Bool8.val_ofFields _ hk, decide_eq_false (by omega), Bool.false_and]
    rfl
  · rw [(notDepentendVersion_packed threshold inputValues hbytes).out, pack, List.map_map]
    exact List.map_congr_left fun b _ => toByte_packedElement _ _ _

theorem packedStructVersion_readBack_nine :
    ∃ buffer, packedStructVersion 127 9 [200, 3, 128, 127, 0, 1, 2, 3, 255]
        (List.replicate 2 (.ofFields fun _ => true)) (.ofFields fun _ => true) = .ok buffer ∧
      PackedStructFixture.getBoolAt 8 buffer = .ok true := by
  obtain ⟨buffer, hrun, hread, -⟩ := packedStructVersion_readBack 127 [200, 3, 128, 127, 0, 1, 2, 3, 255]
    (List.replicate 2 (.ofFields fun _ => true)) (.ofFields fun _ => true) [0, 0] rfl rfl
  exact ⟨buffer, hrun, hread 8 (by decide)⟩

end BenchmarkLibs

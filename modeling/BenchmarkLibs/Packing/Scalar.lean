import BenchmarkLibs.Base.Fallible
import BenchmarkLibs.Packing.Memory

/-!
# The scalar packers

`SingleVarVersion` carries a partial byte and a shift counter from element to element;
`NotDepentendVersion` fills eight entries of `Bits` and stores their disjunction. Both are the same
function of the input: each leaves `pack` of the comparisons with the threshold, whatever the buffer held
before (`singleVarVersion_packed`, `notDepentendVersion_packed`). `getBoolAt` is the reader of that format.
-/

namespace BenchmarkLibs

open BitPacking Overwrite Counted Fallible

/-- `GetBoolAt`. -/
def getBoolAt (pos : Nat) (outputValues : List Byte) : Bool :=
  let bytePos := pos / 8
  let bitPos := pos % 8
  (outputValues.getD bytePos 0).toNat &&& (1 <<< bitPos) != 0

theorem getBoolAt_eq (pos : Nat) (outputValues : List Byte) :
    getBoolAt pos outputValues = bitAt outputValues pos := by
  rw [getBoolAt, bitAt, ← BitVec.testBit_toNat, Nat.shiftLeft_eq, Nat.one_mul, Nat.and_two_pow]
  cases (outputValues.getD (pos / 8) 0).toNat.testBit (pos % 8)
  · simp
  · simp

/-! ### `SingleVarVersion` -/

structure SingleVarState where
  outByte : Byte
  shiftCounter : Nat
  pInputData : Nat
  pOutputByte : Nat
  mem : Mem

/-- `OutByte |= (1 << shiftCounter);` -/
def SingleVarState.setBit (s : SingleVarState) : SingleVarState :=
  let value := s.outByte.toNat ||| (1 <<< s.shiftCounter)
  { s with
    outByte := BitVec.ofNat 8 value
    mem := s.mem.note [.shift s.shiftCounter, .narrow value 8] }

/-- `*pOutputByte++ = OutByte; OutByte = 0; shiftCounter = 0;` -/
def SingleVarState.flush (s : SingleVarState) : SingleVarState :=
  { s with
    mem := s.mem.storeByte s.pOutputByte s.outByte.toNat
    pOutputByte := s.pOutputByte + 1
    outByte := 0
    shiftCounter := 0 }

def singleVarStep (above : Nat → Bool) (s : SingleVarState) : SingleVarState :=
  let taken := above s.pInputData
  let s := { s with mem := s.mem.note [.readInput s.pInputData] }
  let s := if taken then s.setBit else s
  let s := { s with pInputData := s.pInputData + 1, shiftCounter := s.shiftCounter + 1 }
  if s.shiftCounter > 7 then s.flush else s

/-- `SingleVarVersion`, on an output buffer that holds `outputValues` before. -/
def singleVarVersion (threshold : Int) (arrayLength : Nat) (inputValues : List Int)
    (outputValues : List Byte) : Mem :=
  let s := forLoop arrayLength 1 (fun _ => singleVarStep (above threshold inputValues))
    ⟨0, 0, 0, 0, ⟨outputValues, []⟩⟩
  -- our byte might be incomplete, so we need to handle this:
  if arrayLength &&& 7 ≠ 0 then s.mem.storeByte s.pOutputByte s.outByte.toNat else s.mem

/-- After `i` turns the two pointers and the counter are those of element `i`, and the partial byte holds
the values of its byte seen so far. -/
structure SingleVarInv (f : Nat → Bool) (n : Nat) (init : List Byte) (i : Nat) (s : SingleVarState) :
    Prop where
  input : s.pInputData = i
  counter : s.shiftCounter = i % 8
  output : s.pOutputByte = i / 8
  byte : s.outByte = packedWord 8 f i (i / 8)
  written : Written f n 7 i (i / 8) init s.mem

private theorem packedWord_empty (f : Nat → Bool) {i b : Nat} (hb : i ≤ 8 * b) :
    packedWord 8 f i b = 0 := by
  apply BitVec.eq_of_getLsbD_eq
  intro j hj
  have hlt : decide (8 * b + j < i) = false := by simpa using (by omega : i ≤ 8 * b + j)
  rw [packedWord, getLsbD_packWord, hlt, Bool.false_and, Bool.and_false]
  exact BitVec.getLsbD_zero.symm

private theorem packedWord_succ (f : Nat → Bool) (i : Nat) :
    packedWord 8 f (i + 1) (i / 8) = if f i then
      BitVec.ofNat 8 ((packedWord 8 f i (i / 8)).toNat ||| 1 <<< (i % 8)) else packedWord 8 f i (i / 8) := by
  have hi : 8 * (i / 8) + i % 8 = i := Nat.div_add_mod i 8
  have hlt : ∀ j, j ≠ i % 8 → decide (8 * (i / 8) + j < i + 1) = decide (8 * (i / 8) + j < i) :=
    fun j hj => decide_eq_decide.mpr (by omega)
  cases hf : f i
  · rw [if_neg (by decide)]
    apply packWord_congr
    intro j _
    by_cases hij : j = i % 8
    · rw [hij, hi, hf, Bool.and_false, Bool.and_false]
    · rw [hlt j hij]
  · rw [if_pos rfl]
    apply BitVec.eq_of_getLsbD_eq
    intro j hj
    rw [packedWord, getLsbD_packWord, BitVec.getLsbD_ofNat, Nat.testBit_or, BitVec.testBit_toNat, packedWord,
      getLsbD_packWord, Nat.shiftLeft_eq, Nat.one_mul, Nat.testBit_two_pow]
    by_cases hij : j = i % 8
    · rw [hij, hi, hf]
      simp
    · rw [hlt j hij, decide_eq_false (Ne.symm hij), Bool.or_false, decide_eq_true hj, Bool.true_and,
        Bool.true_and]

theorem singleVarStep_inv {f : Nat → Bool} {n i : Nat} {init : List Byte} {s : SingleVarState}
    (h : SingleVarInv f n init i s) (hi : i < n) : SingleVarInv f n init (i + 1) (singleVarStep f s) := by
  obtain ⟨hinput, hcounter, houtput, hbyte, hwritten⟩ := h
  -- the state after the read and the conditional disjunction
  obtain ⟨t, ht, htbyte, htwritten⟩ : ∃ t : SingleVarState,
      singleVarStep f s = (if t.shiftCounter + 1 > 7 then
        { t with pInputData := i + 1, shiftCounter := t.shiftCounter + 1 }.flush else
        { t with pInputData := i + 1, shiftCounter := t.shiftCounter + 1 }) ∧
      (t.shiftCounter = i % 8 ∧ t.pOutputByte = i / 8 ∧ t.outByte = packedWord 8 f (i + 1) (i / 8)) ∧
      Written f n 7 (i + 1) (i / 8) init t.mem := by
    have hread : Written f n 7 (i + 1) (i / 8) init (s.mem.note [.readInput i]) :=
      hwritten.of_out (hwritten.toProgress.noteRead (by simpa [Event.Safe] using hi) rfl rfl) rfl
    cases hf : f i
    · refine ⟨{ s with mem := s.mem.note [.readInput i] }, ?_, ⟨hcounter, houtput, ?_⟩, hread⟩
      · simp [singleVarStep, hinput, hf]
      · rw [packedWord_succ, hf, if_neg (by decide), hbyte]
    · refine ⟨{ s with mem := s.mem.note [.readInput i] }.setBit, ?_, ⟨hcounter, houtput, ?_⟩, ?_⟩
      · simp [singleVarStep, hinput, hf, SingleVarState.setBit]
      · rw [packedWord_succ, hf, if_pos rfl, ← hbyte, ← hcounter]
        rfl
      · refine hread.of_out (hread.toProgress.note ?_ rfl rfl) rfl
        have hcount : s.shiftCounter < 8 := by omega
        have hbit : 1 <<< s.shiftCounter < 2 ^ 8 := by
          rw [Nat.shiftLeft_eq, Nat.one_mul]
          exact Nat.pow_lt_pow_right (by decide) hcount
        simp only [List.mem_cons, List.not_mem_nil, or_false, forall_eq_or_imp, forall_eq, Event.Safe]
        exact ⟨by omega, Nat.or_lt_two_pow s.outByte.isLt hbit⟩
  obtain ⟨htcounter, htoutput, htbyte⟩ := htbyte
  rw [ht]
  by_cases hfull : t.shiftCounter + 1 > 7
  · -- the eighth element of a byte: the byte is stored and a new one begins
    have hnext : (i + 1) / 8 = i / 8 + 1 := by omega
    have hend : 8 * (i / 8 + 1) = i + 1 := by omega
    rw [if_pos hfull]
    refine ⟨rfl, by simp only [SingleVarState.flush]; omega, ?_, ?_, ?_⟩
    · simp only [SingleVarState.flush, htoutput, hnext]
    · rw [hnext, packedWord_empty f (by omega)]
      rfl
    · simp only [SingleVarState.flush, htoutput, hnext]
      refine htwritten.storeByte ((lt_wordCount (by decide)).mpr (by omega)) t.outByte.isLt ?_
      rw [BitVec.ofNat_toNat, BitVec.setWidth_eq, htbyte, packedWord_full f (by omega),
        packedWord_full f (by omega)]
  · have hsame : (i + 1) / 8 = i / 8 := by omega
    rw [if_neg hfull]
    exact ⟨rfl, by simp only; omega, by rw [hsame]; exact htoutput, by rw [hsame]; exact htbyte,
      by rw [hsame]; exact htwritten⟩

theorem singleVarLoop_inv (threshold : Int) (inputValues : List Int) (outputValues : List Byte) (n : Nat) :
    SingleVarInv (above threshold inputValues) n outputValues n
      (forLoop n 1 (fun _ => singleVarStep (above threshold inputValues)) ⟨0, 0, 0, 0, ⟨outputValues, []⟩⟩) :=
  forLoop_one n _ _ (SingleVarInv (above threshold inputValues) n outputValues)
    ⟨rfl, rfl, rfl, (packedWord_empty _ (by omega)).symm, .start _ _⟩
    (fun _ _ hi h => singleVarStep_inv h hi)

theorem singleVarVersion_packed (threshold : Int) (inputValues : List Int) {outputValues : List Byte}
    {n : Nat} (hlen : outputValues.length = wordCount 8 n) :
    Packed (above threshold inputValues) n 7 (singleVarVersion threshold n inputValues outputValues) := by
  have hinv := singleVarLoop_inv threshold inputValues outputValues n
  simp only [singleVarVersion, and_seven]
  generalize forLoop n 1 _ _ = s at hinv
  obtain ⟨-, -, houtput, hbyte, hwritten⟩ := hinv
  by_cases hrest : n % 8 = 0
  · rw [if_neg (by simpa using hrest)]
    have hcount : n / 8 = wordCount 8 n := by rw [wordCount_eight]; omega
    exact (hcount ▸ hwritten).packed hlen
  · rw [if_pos hrest]
    have hcount : n / 8 + 1 = wordCount 8 n := by rw [wordCount_eight]; omega
    refine Written.packed ?_ hlen
    rw [← hcount, houtput]
    refine hwritten.storeByte (by omega) s.outByte.isLt ?_
    rw [BitVec.ofNat_toNat, BitVec.setWidth_eq, hbyte]

/-! ### `NotDepentendVersion` -/

structure BlockState where
  bits : Vector Byte 8
  pInputData : Nat
  pOutputByte : Nat
  mem : Mem

def notDepentendBlock (above : Nat → Bool) (s : BlockState) : BlockState :=
  let scratch := assignBlock above s.pInputData (s.bits, s.mem)
  { bits := scratch.1
    mem := storeBits [0, 1, 2, 3, 4, 5, 6, 7] s.pOutputByte scratch
    pOutputByte := s.pOutputByte + 1
    pInputData := s.pInputData + 8 }

/-- `NotDepentendVersion`, on an output buffer that holds `outputValues` before. -/
def notDepentendVersion (threshold : Int) (arrayLength : Nat) (inputValues : List Int)
    (outputValues : List Byte) : Mem :=
  let lenDivBy8 := arrayLength / 8 * 8
  let s := forLoop lenDivBy8 8 (fun _ => notDepentendBlock (above threshold inputValues))
    ⟨Vector.replicate 8 0, 0, 0, ⟨outputValues, []⟩⟩
  if arrayLength &&& 7 ≠ 0 then
    -- note that we'll use max 7 elements, so max is Bits[6]
    let restW := arrayLength &&& 7
    let tail := tailLoop 8 8 (above threshold inputValues) restW s.pInputData s.mem
    storeBits [0, 1, 2, 3, 4, 5, 6] s.pOutputByte (tail.bits, tail.mem)
  else s.mem

/-- After `k` blocks; of `Bits` nothing is known, and nothing is needed. -/
structure BlockInv (f : Nat → Bool) (n : Nat) (init : List Byte) (k : Nat) (s : BlockState) : Prop where
  input : s.pInputData = 8 * k
  output : s.pOutputByte = k
  written : Written f n 7 (8 * k) k init s.mem

theorem notDepentendBlock_inv {f : Nat → Bool} {n k : Nat} {init : List Byte} {s : BlockState}
    (h : BlockInv f n init k s) (hk : k < n / 8) : BlockInv f n init (k + 1) (notDepentendBlock f s) := by
  obtain ⟨hinput, houtput, hwritten⟩ := h
  refine ⟨by simp only [notDepentendBlock]; omega, by simp only [notDepentendBlock]; omega, ?_⟩
  have hprogress := assignBlock_progress f (s := (s.bits, s.mem)) hwritten.toProgress (by omega)
  simp only [notDepentendBlock, hinput, houtput]
  refine storeBits_written (hwritten.of_out hprogress rfl)
    (by decide) ((lt_wordCount (by decide)).mpr (by omega)) (orEntries_lt _ _) ?_
  exact ofNat_orEntries_block (assignBlock_masks f (8 * k) _) (by omega)

theorem notDepentendLoop_inv (threshold : Int) (inputValues : List Int) (outputValues : List Byte) (n : Nat) :
    BlockInv (above threshold inputValues) n outputValues (n / 8)
      (forLoop (n / 8 * 8) 8 (fun _ => notDepentendBlock (above threshold inputValues))
        ⟨Vector.replicate 8 0, 0, 0, ⟨outputValues, []⟩⟩) := by
  rw [Nat.mul_comm (n / 8) 8]
  exact forLoop_multiple (n / 8) _ _ (by decide : 0 < 8) (BlockInv (above threshold inputValues) n outputValues)
    ⟨rfl, rfl, .start _ _⟩ (fun _ _ hk h => notDepentendBlock_inv h hk)

theorem notDepentendVersion_packed (threshold : Int) (inputValues : List Int) {outputValues : List Byte}
    {n : Nat} (hlen : outputValues.length = wordCount 8 n) :
    Packed (above threshold inputValues) n 7
      (notDepentendVersion threshold n inputValues outputValues) := by
  have hinv := notDepentendLoop_inv threshold inputValues outputValues n
  simp only [notDepentendVersion, and_seven]
  generalize forLoop (n / 8 * 8) 8 _ _ = s at hinv
  obtain ⟨hinput, houtput, hwritten⟩ := hinv
  by_cases hrest : n % 8 = 0
  · rw [if_neg (by simpa using hrest)]
    exact hwritten.packed_of_full hlen hrest
  · rw [if_pos hrest, hinput, houtput]
    exact hwritten.packed_of_tail hlen hrest (by decide)

/-! ### One element for each comparison -/

theorem above_eq (threshold : Int) {inputValues : List Int} {i : Nat} (hi : i < inputValues.length) :
    above threshold inputValues i = decide (inputValues[i] > threshold) := by
  rw [above, List.getD_eq_getElem?_getD, List.getElem?_eq_getElem hi, Option.getD_some]

/-- `for (i = 0; i < arrayLength; ++i) outputValues[i] = inputValues[i] > threshold;`, where an element
keeps a boolean as `encode` does. -/
def compareEach {α : Type} (threshold : Int) (arrayLength : Nat) (inputValues : List Int) (encode : Bool → α)
    (outputValues : List α) : Except Fault (List α) :=
  (List.range arrayLength).foldlM (fun outputValues i => do
    let value ← readAt inputValues i
    storeAt outputValues i (encode (decide (value > threshold)))) outputValues

theorem compareEach_eq {α : Type} (threshold : Int) {n : Nat} {inputValues : List Int} (encode : Bool → α)
    {outputValues : List α} (hin : n ≤ inputValues.length) (hout : n ≤ outputValues.length) :
    compareEach threshold n inputValues encode outputValues
      = .ok (overwrite (fun i => encode (above threshold inputValues i)) (Finset.range n) outputValues) := by
  obtain ⟨_, hrun, rfl⟩ := Succeeds.foldlM_range n
    (fun outputValues i => do
      let value ← readAt inputValues i
      storeAt outputValues i (encode (decide (value > threshold)))) outputValues
    (fun i out => out = overwrite (fun i => encode (above threshold inputValues i)) (Finset.range i) outputValues)
    (overwrite_empty _ outputValues).symm (by
      rintro i _ hi rfl
      have hi' : i < inputValues.length := lt_of_lt_of_le hi hin
      rw [readAt_of_lt hi']
      refine ⟨_, storeAt_of_lt _ (by rw [length_overwrite]; exact lt_of_lt_of_le hi hout), ?_⟩
      rw [← above_eq threshold hi']
      exact set_overwrite_range _ _ _)
  exact hrun

/-! ### The format

What a packed buffer says of its input, for any body that packs. -/

theorem Packed.getBoolAt {f : Nat → Bool} {n maxShift : Nat} {m : Mem} (h : Packed f n maxShift m)
    (pos : Nat) : getBoolAt pos m.out = (decide (pos < n) && f pos) := by
  rw [getBoolAt_eq, h.out, bitAt_pack (by decide)]

theorem Packed.out_eq {f : Nat → Bool} {n maxShift : Nat} {m : Mem} (h : Packed f n maxShift m)
    {buffer : List Byte} (hlen : buffer.length = wordCount 8 n)
    (hpad : ∀ pos, n ≤ pos → pos < 8 * buffer.length → BenchmarkLibs.getBoolAt pos buffer = false)
    (hbits : ∀ i, i < n → f i = BenchmarkLibs.getBoolAt i buffer) : m.out = buffer := by
  have hself : pack 8 (bitAt buffer) n = buffer :=
    pack_bitAt (by decide) hlen fun pos hpos hlt => (getBoolAt_eq pos buffer).symm.trans (hpad pos hpos hlt)
  rw [h.out, ← hself]
  exact pack_congr fun i hi => (hbits i hi).trans (getBoolAt_eq i buffer)

/-- `SingleVarVersion` and `GetBoolAt` are inverse to one another between the sequences of `n` comparisons
and the buffers of `(n + 7) / 8` bytes with zeros from bit `n` on: what is packed is read back, and a
buffer whose bits are the comparisons is what packing writes. -/
theorem singleVarVersion_bijection (threshold : Int) (inputValues : List Int) (outputValues : List Byte)
    (hout : outputValues.length = (inputValues.length + 7) / 8) :
    (∀ i (hi : i < inputValues.length),
      getBoolAt i (singleVarVersion threshold inputValues.length inputValues outputValues).out
        = decide (inputValues[i] > threshold)) ∧
    ∀ buffer : List Byte, buffer.length = (inputValues.length + 7) / 8 →
      (∀ pos, inputValues.length ≤ pos → pos < 8 * buffer.length → getBoolAt pos buffer = false) →
      (∀ i (hi : i < inputValues.length), inputValues[i] > threshold ↔ getBoolAt i buffer = true) →
      (singleVarVersion threshold inputValues.length inputValues outputValues).out = buffer := by
  have hpacked := singleVarVersion_packed threshold inputValues hout
  refine ⟨fun i hi => ?_, fun buffer hlen hpad hbits => hpacked.out_eq hlen hpad fun i hi => ?_⟩
  · rw [hpacked.getBoolAt, above_eq threshold hi, decide_eq_true hi, Bool.true_and]
  · rw [above_eq threshold hi, Bool.eq_iff_iff, decide_eq_true_iff]
    exact hbits i hi

theorem singleVarVersion_bijection_nine :
    (singleVarVersion 127 9 [200, 3, 128, 127, 0, 1, 2, 3, 255] [0xFF, 0xFF]).out = [0x05, 0x01] :=
  (singleVarVersion_bijection 127 [200, 3, 128, 127, 0, 1, 2, 3, 255] [0xFF, 0xFF] rfl).2 [0x05, 0x01] rfl
    (by decide) (by decide)

/-- The accumulator packer and the unrolled packer write the same bytes, zero padding included. -/
theorem singleVarVersion_eq_notDepentendVersion (threshold : Int) (inputValues : List Int)
    (out₁ out₂ : List Byte) (hout₁ : out₁.length = (inputValues.length + 7) / 8)
    (hout₂ : out₂.length = (inputValues.length + 7) / 8) :
    (singleVarVersion threshold inputValues.length inputValues out₁).out
      = (notDepentendVersion threshold inputValues.length inputValues out₂).out ∧
    ∀ pos, inputValues.length ≤ pos →
      getBoolAt pos (notDepentendVersion threshold inputValues.length inputValues out₂).out = false := by
  have hsingle := singleVarVersion_packed threshold inputValues hout₁
  have hblocks := notDepentendVersion_packed threshold inputValues hout₂
  refine ⟨hsingle.out.trans hblocks.out.symm, fun pos hpos => ?_⟩
  rw [hblocks.getBoolAt, decide_eq_false (by omega), Bool.false_and]

theorem singleVarVersion_eq_notDepentendVersion_eleven :
    (singleVarVersion 127 11 [200, 3, 128, 127, 0, 1, 2, 3, 255, 90, 129] [0xFF, 0xFF]).out
      = (notDepentendVersion 127 11 [200, 3, 128, 127, 0, 1, 2, 3, 255, 90, 129] [0, 0]).out :=
  (singleVarVersion_eq_notDepentendVersion 127 [200, 3, 128, 127, 0, 1, 2, 3, 255, 90, 129] [0xFF, 0xFF] [0, 0]
    rfl rfl).1

end BenchmarkLibs

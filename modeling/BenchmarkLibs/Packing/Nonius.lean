import BenchmarkLibs.Packing.Scalar

/-!
# The nonius benchmarks

The nonius program has its own copies of the two scalar packers, without a tail (`noniusPackers_agree`), and
keeps the comparisons in three storages: packed bytes, a `vector<bool>` and an array of bytes. Four
benchmarks carry the threshold 254 in their names and four the threshold 127. Seven of them compute with the
threshold they are named after; `baseline127` computes with 254 (`family127_computes_iff`).
-/

namespace BenchmarkLibs

open BitPacking Overwrite Counted Fallible

def experimentValue : Nat := 100000

def thresholdValueLarge : Int := 254

def thresholdValueHalf : Int := 127

/-! ### The packers

`experimentValue` is a constant of the program; the functions take it as `arrayLength`. -/

/-- `ComputeNotDependent<Threshold>`. -/
def computeNotDependent (threshold : Int) (arrayLength : Nat) (inputValues : List Int)
    (outputValues : List Byte) : Mem :=
  let lenDivBy8 := arrayLength / 8 * 8
  (forLoop lenDivBy8 8 (fun _ => notDepentendBlock (above threshold inputValues))
    ⟨Vector.replicate 8 0, 0, 0, ⟨outputValues, []⟩⟩).mem

/-- `ComputeSingleVar<Threshold>`, which accumulates the elements after the last full byte and drops them. -/
def computeSingleVar (threshold : Int) (arrayLength : Nat) (inputValues : List Int)
    (outputValues : List Byte) : Mem :=
  (forLoop arrayLength 1 (fun _ => singleVarStep (above threshold inputValues))
    ⟨0, 0, 0, 0, ⟨outputValues, []⟩⟩).mem

theorem computeNotDependent_out (threshold : Int) (n : Nat) (inputValues : List Int) (outputValues : List Byte) :
    (computeNotDependent threshold n inputValues outputValues).out
      = overwrite (packedWord 8 (above threshold inputValues) n) (Finset.range (n / 8)) outputValues :=
  (notDepentendLoop_inv threshold inputValues outputValues n).written.out

theorem computeSingleVar_out (threshold : Int) (n : Nat) (inputValues : List Int) (outputValues : List Byte) :
    (computeSingleVar threshold n inputValues outputValues).out
      = overwrite (packedWord 8 (above threshold inputValues) n) (Finset.range (n / 8)) outputValues :=
  (singleVarLoop_inv threshold inputValues outputValues n).written.out

theorem getBoolAt_overwrite (f : Nat → Bool) {n i : Nat} {outputValues : List Byte}
    (hlen : outputValues.length = wordCount 8 n) (hi : i < 8 * (n / 8)) :
    getBoolAt i (overwrite (packedWord 8 f n) (Finset.range (n / 8)) outputValues) = f i := by
  have hbyte : i / 8 < n / 8 := by omega
  have hlt : i / 8 < outputValues.length := by rw [hlen, wordCount_eight]; omega
  rw [getBoolAt_eq, bitAt, List.getD_eq_getElem?_getD, getElem?_overwrite, List.getElem?_eq_getElem hlt,
    Option.map_some, Option.getD_some, if_pos (Finset.mem_range.mpr hbyte), packedWord_full f (by omega),
    getLsbD_packWord, Nat.div_add_mod, decide_eq_true (Nat.mod_lt i (by decide)), Bool.true_and]

/-- The two packers leave the same buffer: the full bytes are those of the Celero packer, and the byte after
them, which is there when elements are left over, is not written. The `int` counter of `ComputeSingleVar`
counts every element. -/
theorem noniusPackers_agree (threshold : Int) (inputValues : List Int)
    (hn : inputValues.length < 2 ^ 31) (outputValues celeroValues : List Byte)
    (hout : outputValues.length = (inputValues.length + 7) / 8)
    (hcelero : celeroValues.length = (inputValues.length + 7) / 8) :
    (computeSingleVar threshold inputValues.length inputValues outputValues).out
      = (computeNotDependent threshold inputValues.length inputValues outputValues).out ∧
    (computeNotDependent threshold inputValues.length inputValues outputValues).out.take (inputValues.length / 8)
      = (notDepentendVersion threshold inputValues.length inputValues celeroValues).out.take
        (inputValues.length / 8) ∧
    (inputValues.length / 8 < outputValues.length ↔ inputValues.length % 8 ≠ 0) ∧
    (computeNotDependent threshold inputValues.length inputValues outputValues).out[inputValues.length / 8]?
      = outputValues[inputValues.length / 8]? ∧
    ∀ i, i ≤ inputValues.length → int32 i = i := by
  have hfull : inputValues.length / 8 ≤ wordCount 8 inputValues.length := by rw [wordCount_eight]; omega
  refine ⟨?_, ?_, by omega, ?_, fun i hi => int32_of_lt (by omega)⟩
  · rw [computeSingleVar_out, computeNotDependent_out]
  · rw [computeNotDependent_out, take_overwrite_range _ (hout.symm ▸ hfull),
      (notDepentendVersion_packed threshold inputValues hcelero).out, take_pack _ _ hfull]
  · rw [computeNotDependent_out, getElem?_overwrite]
    simp

theorem noniusPackers_agree_nine :
    (computeNotDependent 127 9 [200, 3, 128, 127, 0, 1, 2, 3, 255] [0, 0xAA]).out[1]? = some 0xAA :=
  (noniusPackers_agree 127 [200, 3, 128, 127, 0, 1, 2, 3, 255] (by decide) [0, 0xAA] [0, 0]
    rfl rfl).2.2.2.1

/-! ### The benchmarks -/

def boolByte (value : Bool) : Byte := if value then 1 else 0

/-- `for (i = 0; i < experimentValue; ++i) outputValues[i] = inputValues[i] > threshold;` on a
`vector<bool>`. -/
def vectorBool (threshold : Int) (arrayLength : Nat) (inputValues : List Int) (outputValues : List Bool) :
    Except Fault (List Bool) :=
  compareEach threshold arrayLength inputValues id outputValues

def baseline (threshold : Int) (arrayLength : Nat) (inputValues : List Int) (outputValues : List Byte) :
    Except Fault (List Byte) :=
  compareEach threshold arrayLength inputValues boolByte outputValues

def notDependent254 := computeNotDependent thresholdValueLarge
def notDependent127 := computeNotDependent thresholdValueHalf
def singleVar254 := computeSingleVar thresholdValueLarge
def singleVar127 := computeSingleVar thresholdValueHalf
def vectorBool254 := vectorBool thresholdValueLarge
def vectorBool127 := vectorBool thresholdValueHalf
def baseline254 := baseline thresholdValueLarge
-- `ThresholdValueLarge` stands here too
def baseline127 := baseline thresholdValueLarge

/-- The measured bodies of the four benchmarks with one threshold in their names, each from the length, the
input and the content of its output before. -/
structure Family where
  notDependent : Nat → List Int → List Byte → Mem
  singleVar : Nat → List Int → List Byte → Mem
  vectorBool : Nat → List Int → List Bool → Except Fault (List Bool)
  baseline : Nat → List Int → List Byte → Except Fault (List Byte)

def family254 : Family := ⟨notDependent254, singleVar254, vectorBool254, baseline254⟩

def family127 : Family := ⟨notDependent127, singleVar127, vectorBool127, baseline127⟩

/-- On this input the four benchmarks keep `inputValues[i] > threshold` at every index `i` of a full byte,
whatever their outputs held before. -/
def Family.Computes (F : Family) (threshold : Int) (inputValues : List Int) : Prop :=
  ∀ (bytes₁ bytes₂ : List Byte) (flags : List Bool) (bytes : List Byte),
    bytes₁.length = (inputValues.length + 7) / 8 → bytes₂.length = (inputValues.length + 7) / 8 →
    flags.length = inputValues.length → bytes.length = inputValues.length →
    ∃ flags' bytes', F.vectorBool inputValues.length inputValues flags = .ok flags' ∧
      F.baseline inputValues.length inputValues bytes = .ok bytes' ∧
      ∀ i (hi : i < inputValues.length), i < 8 * (inputValues.length / 8) →
        getBoolAt i (F.notDependent inputValues.length inputValues bytes₁).out
          = decide (inputValues[i] > threshold) ∧
        getBoolAt i (F.singleVar inputValues.length inputValues bytes₂).out
          = decide (inputValues[i] > threshold) ∧
        flags'[i]? = some (decide (inputValues[i] > threshold)) ∧
        bytes'[i]? = some (boolByte (decide (inputValues[i] > threshold)))

theorem boolByte_inj {a b : Bool} : boolByte a = boolByte b ↔ a = b := by
  revert a b
  decide

private theorem getElem?_compared {α : Type} (threshold : Int) {inputValues : List Int} (encode : Bool → α)
    {outputValues : List α} (hlen : outputValues.length = inputValues.length) {i : Nat}
    (hi : i < inputValues.length) :
    (overwrite (fun i => encode (above threshold inputValues i)) (Finset.range inputValues.length)
      outputValues)[i]? = some (encode (decide (inputValues[i] > threshold))) := by
  rw [getElem?_overwrite, List.getElem?_eq_getElem (hlen ▸ hi), Option.map_some,
    if_pos (Finset.mem_range.mpr hi), above_eq threshold hi]

/-- A family whose packers and `vector<bool>` use one threshold and whose baseline uses another computes
with the first when no element of a full byte is between the two. -/
theorem computes_iff (threshold baselineThreshold : Int) (inputValues : List Int) :
    Family.Computes ⟨computeNotDependent threshold, computeSingleVar threshold, vectorBool threshold,
      baseline baselineThreshold⟩ threshold inputValues ↔
    ∀ i (hi : i < inputValues.length), i < 8 * (inputValues.length / 8) →
      (inputValues[i] > baselineThreshold ↔ inputValues[i] > threshold) := by
  constructor
  · intro h i hi hfull
    obtain ⟨flags', bytes', -, hbytes', hall⟩ := h (List.replicate _ 0) (List.replicate _ 0)
      (List.replicate _ false) (List.replicate _ 0) List.length_replicate List.length_replicate
      List.length_replicate List.length_replicate
    obtain ⟨-, -, -, hbaseline⟩ := hall i hi hfull
    simp only [baseline] at hbytes'
    rw [compareEach_eq _ _ le_rfl List.length_replicate.ge, Except.ok.injEq] at hbytes'
    rw [← hbytes', getElem?_compared _ _ List.length_replicate hi, Option.some.injEq, boolByte_inj] at hbaseline
    exact decide_eq_decide.mp hbaseline
  · intro h bytes₁ bytes₂ flags bytes hbytes₁ hbytes₂ hflags hbytes
    refine ⟨_, _, compareEach_eq _ _ le_rfl hflags.ge, compareEach_eq _ _ le_rfl hbytes.ge, fun i hi hfull => ?_⟩
    refine ⟨?_, ?_, getElem?_compared threshold id hflags hi, ?_⟩
    · rw [computeNotDependent_out, getBoolAt_overwrite _ hbytes₁ hfull, above_eq threshold hi]
    · rw [computeSingleVar_out, getBoolAt_overwrite _ hbytes₂ hfull, above_eq threshold hi]
    · rw [getElem?_compared baselineThreshold boolByte hbytes hi, decide_eq_decide.mpr (h i hi hfull)]

theorem family254_computes (inputValues : List Int) : family254.Computes 254 inputValues :=
  (computes_iff thresholdValueLarge thresholdValueLarge inputValues).mpr fun _ _ _ => Iff.rfl

theorem family127_computes_iff (inputValues : List Int) :
    family127.Computes 127 inputValues ↔
      ∀ i (hi : i < inputValues.length), i < 8 * (inputValues.length / 8) →
        ¬ (127 < inputValues[i] ∧ inputValues[i] ≤ 254) := by
  refine (computes_iff thresholdValueHalf thresholdValueLarge inputValues).trans ?_
  refine forall_congr' fun i => forall_congr' fun hi => forall_congr' fun _ => ?_
  simp only [thresholdValueLarge, thresholdValueHalf]
  omega

/-- The eight benchmarks compute with the thresholds in their names exactly on the inputs that have no
element between 128 and 254 in a full byte. -/
theorem families_compute_iff (inputValues : List Int) :
    (family254.Computes 254 inputValues ∧ family127.Computes 127 inputValues) ↔
      ∀ i (hi : i < inputValues.length), i < 8 * (inputValues.length / 8) →
        ¬ (127 < inputValues[i] ∧ inputValues[i] ≤ 254) :=
  (and_iff_right (family254_computes inputValues)).trans (family127_computes_iff inputValues)

/-- With `experimentValue` elements of 200, `baseline127` keeps zeros where the others keep ones. -/
theorem families_disagree_at_200 :
    (List.replicate experimentValue (200 : Int)).length = experimentValue ∧
    ¬ (family254.Computes 254 (List.replicate experimentValue 200) ∧
      family127.Computes 127 (List.replicate experimentValue 200)) := by
  refine ⟨List.length_replicate, fun h => ?_⟩
  have hlen : (List.replicate experimentValue (200 : Int)).length = 100000 := List.length_replicate
  refine (family127_computes_iff _).mp h.2 0 (by omega) (by omega) ?_
  rw [List.getElem_replicate]
  decide

end BenchmarkLibs

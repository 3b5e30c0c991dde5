import BenchmarkLibs.Packing.OpenMP
import BenchmarkLibs.Packing.Simd

/-!
# Index and width safety of the packers

The log of a body tells every access it made. Here it is read off what the bodies are known to do: for
fewer than `2 ^ 31` elements no access leaves its array, no element is left out, no byte is written twice
and no number differs from what it is over the integers.
-/

namespace BenchmarkLibs

open BitPacking Interleaving

/-- A run of a body over `n` elements and `(n + 7) / 8` bytes, every access of which is safe, that reads
every element and writes every byte exactly once. -/
structure RunsSafely (n maxShift : Nat) (m : Mem) : Prop where
  safe : ∀ e ∈ m.log, e.Safe n ((n + 7) / 8) maxShift
  reads_all : ∀ i, i < n → i ∈ m.reads
  writes_once : ∀ b, b < (n + 7) / 8 → m.writes.count b = 1

theorem Packed.runsSafely {f : Nat → Bool} {n maxShift : Nat} {m : Mem} (h : Packed f n maxShift m) :
    RunsSafely n maxShift m where
  safe := h.safe
  reads_all i hi := h.reads.mem_iff.mpr (List.mem_range.mpr hi)
  writes_once b hb := by
    rw [h.writes.count_eq]
    exact List.count_eq_one_of_mem List.nodup_range (List.mem_range.mpr hb)

/-- The four byte packers run safely on every input of fewer than `2 ^ 31` elements, `WithOpenMP` under
every schedule; and the casts of `setUp`, the counter of the parallel loop up to the value it leaves the
loop with, and the shifted threshold are what they are over the integers. -/
theorem packers_runSafely (inputValues : List Int) (hn : inputValues.length < 2 ^ 31)
    (outputValues : List Byte) (hout : outputValues.length = (inputValues.length + 7) / 8) :
    RunsSafely inputValues.length 7
      (singleVarVersion thresholdValue inputValues.length inputValues outputValues) ∧
    RunsSafely inputValues.length 7
      (notDepentendVersion thresholdValue inputValues.length inputValues outputValues) ∧
    (∀ (threads : Nat) (work : Fin threads → List Nat) (bits : Fin threads → Vector Byte 8)
      (c : OmpConfig threads),
      ∑ t, (work t : Multiset Nat) = Multiset.range (numFullBytesOf inputValues.length) →
      Steps (OmpOp.act (above thresholdValue inputValues)) (ompStart work bits outputValues) c → c.Done →
      RunsSafely inputValues.length 7 (ompTail (above thresholdValue inputValues) inputValues.length
        (numBytesOf inputValues.length) (numFullBytesOf inputValues.length) c.shared)) ∧
    (∀ sse : Sse2, sse.Documented → ∀ signedInputValues : List Byte,
      signedInputValues.length = inputValues.length →
      RunsSafely inputValues.length 15
        (simdVersion sse thresholdValue inputValues.length signedInputValues outputValues)) ∧
    numBytesOf inputValues.length = (inputValues.length + 7) / 8 ∧
    numFullBytesOf inputValues.length = inputValues.length / 8 ∧
    (∀ i, i ≤ numFullBytesOf inputValues.length → int32 i = i) ∧
    (convertedThreshold thresholdValue).toInt = thresholdValue - 128 := by
  refine ⟨(singleVarVersion_packed _ _ hout).runsSafely, (notDepentendVersion_packed _ _ hout).runsSafely,
    fun threads work bits c hwork hrun hdone => ?_, fun sse hsse signedInputValues _ => ?_,
    numBytesOf_eq hn, numFullBytesOf_eq hn, fun i hi => ?_, by decide⟩
  · exact (withOpenMP_packed _ _ hn hout hwork hrun hdone).runsSafely
  · exact (simdVersion_packed hsse _ _ hout).runsSafely
  · rw [numFullBytesOf_eq hn] at hi
    exact int32_of_lt (by omega)

theorem packers_runSafely_eighteen :
    (simdVersion .lanes thresholdValue 18 (signedInputValuesOf 18
      [200, 3, 128, 127, 0, 1, 2, 3, 255, 129, 130, 131, 4, 5, 6, 250, 90, 201])
      [0xFF, 0xFF, 0xFF]).writes.count 1 = 1 :=
  ((packers_runSafely [200, 3, 128, 127, 0, 1, 2, 3, 255, 129, 130, 131, 4, 5, 6, 250, 90, 201]
    (by decide) [0xFF, 0xFF, 0xFF] rfl).2.2.2.1 .lanes Sse2.lanes_documented _ rfl).writes_once 1 (by decide)

end BenchmarkLibs

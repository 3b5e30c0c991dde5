import BenchmarkLibs.Packing.OpenMP
import BenchmarkLibs.Packing.Simd

/-!
# The fixtures of `CompressBoolsTest`

A fixture is one object that a benchmark run sets up, measures and tears down for one problem after
another. Its storage is reused, resized, or allocated without being cleared, and the body of the benchmark
runs several times over its own output. Here each of the seven fixtures is shown to report nothing: `Quiet`
says what its three methods keep, and `Quiet.runAll` carries that over every sequence of problems.
-/

namespace BenchmarkLibs

open BitPacking Overwrite Fallible

/-! ### Running a fixture -/

/-- What a problem takes from outside the program: the numbers `dist(gen)` gives, what the elements of a
new array hold before they are written, and what `Bits` holds when a turn of the body begins. -/
structure Surroundings where
  dist : Nat → Int
  dist_range : ∀ i, 0 ≤ dist i ∧ dist i ≤ maxDist
  newBool : Nat → Bool
  newByte : Nat → Byte
  bits : Nat → Vector Byte 8

structure Problem where
  experimentValue : Nat
  iterations : Nat
  world : Surroundings

/-- A call of `Checker`, which reports a mismatch when the two booleans differ. -/
structure CheckerCall where
  val : Bool
  reference : Bool
  index : Nat

/-- The methods of `celero::TestFixture` that a fixture overrides, over the state of its object. -/
structure TestFixture (σ : Type) where
  setUp : Surroundings → Nat → σ → σ
  userBenchmark : Surroundings → Nat → σ → Except Fault σ
  tearDown : σ → Except Fault (σ × List CheckerCall)

namespace TestFixture

variable {σ : Type}

/-- `while(iterationCounter--) this->UserBenchmark();` -/
def iterate (F : TestFixture σ) (world : Surroundings) : Nat → σ → Except Fault σ
  | 0, s => .ok s
  | iterationCounter + 1, s => do
    let s ← F.userBenchmark world iterationCounter s
    F.iterate world iterationCounter s

/-- `TestFixture::run`. -/
def run (F : TestFixture σ) (p : Problem) (s : σ) : Except Fault (σ × List CheckerCall) := do
  let s ← F.iterate p.world p.iterations (F.setUp p.world p.experimentValue s)
  F.tearDown s

def runAll (F : TestFixture σ) (problems : List Problem) (s : σ) : Except Fault (σ × List CheckerCall) :=
  problems.foldlM (fun (s, calls) p => do
    let (s, new) ← F.run p s
    pure (s, calls ++ new)) (s, [])

/-- What the methods keep between them. `Idle done` holds of the object between two problems, after `done`
of them, `Ready done p` from the set-up for `p` on, and `Filled p` once the body has run. -/
structure Quiet (F : TestFixture σ) (Admissible : Problem → Prop) (Idle : Nat → σ → Prop)
    (Ready : Nat → Problem → σ → Prop) (Filled : Problem → σ → Prop) : Prop where
  setUp : ∀ done p s, Admissible p → Idle done s → Ready done p (F.setUp p.world p.experimentValue s)
  userBenchmark : ∀ done p turn s, Admissible p → Ready done p s →
    Succeeds (F.userBenchmark p.world turn s) fun s' => Ready done p s' ∧ Filled p s'
  tearDown : ∀ done p s, Admissible p → Ready done p s → Filled p s →
    Succeeds (F.tearDown s) fun (s', calls) => Idle (done + 1) s' ∧ ∀ c ∈ calls, c.val = c.reference

namespace Quiet

variable {F : TestFixture σ} {Admissible : Problem → Prop} {Idle : Nat → σ → Prop}
  {Ready : Nat → Problem → σ → Prop} {Filled : Problem → σ → Prop}

private theorem iterate (h : F.Quiet Admissible Idle Ready Filled) {done : Nat} {p : Problem}
    (hp : Admissible p) : ∀ iterations s, Ready done p s → (iterations = 0 → Filled p s) →
      Succeeds (F.iterate p.world iterations s) fun s' => Ready done p s' ∧ Filled p s' := by
  intro iterations
  induction iterations with
  | zero => intro s hready hfilled; exact .ok ⟨hready, hfilled rfl⟩
  | succ iterations ih =>
    intro s hready _
    exact (h.userBenchmark done p iterations s hp hready).bind fun s' hs' => ih s' hs'.1 fun _ => hs'.2

private theorem run (h : F.Quiet Admissible Idle Ready Filled) {done : Nat} {p : Problem} {s : σ}
    (hp : Admissible p) (hpos : 1 ≤ p.iterations) (hs : Idle done s) :
    Succeeds (F.run p s) fun (s', calls) => Idle (done + 1) s' ∧ ∀ c ∈ calls, c.val = c.reference := by
  refine (h.iterate hp p.iterations _ (h.setUp done p s hp hs) (by omega)).bind fun s' hs' => ?_
  exact h.tearDown done p s' hp hs'.1 hs'.2

/-- A fixture whose methods keep their conditions ends every sequence of problems without a fault and
without a mismatch. -/
theorem runAll (h : F.Quiet Admissible Idle Ready Filled) {s : σ} (hs : Idle 0 s) :
    ∀ problems : List Problem, (∀ p ∈ problems, Admissible p ∧ 1 ≤ p.iterations) →
      Succeeds (F.runAll problems s) fun (s', calls) =>
        Idle problems.length s' ∧ ∀ c ∈ calls, c.val = c.reference := by
  intro problems
  induction problems using List.reverseRecOn with
  | nil => intro _; exact .ok ⟨hs, by simp⟩
  | append_singleton problems p ih =>
    intro hproblems
    obtain ⟨hadmissible, hpos⟩ := hproblems p (by simp)
    rw [TestFixture.runAll, List.foldlM_append]
    refine (ih fun q hq => hproblems q (by simp [hq])).bind fun (s', calls) ⟨hidle, hcalls⟩ => ?_
    rw [List.foldlM_cons]
    refine Succeeds.bind ?_ fun a ha => .ok ha
    refine (h.run hadmissible hpos hidle).bind fun (s'', new) ⟨hidle', hnew⟩ => .ok ⟨?_, ?_⟩
    · simpa using hidle'
    · intro c hc
      exact (List.mem_append.mp hc).elim (hcalls c) (hnew c)

end Quiet

end TestFixture

/-! ### `CompressBoolsFixture` -/

structure CompressBoolsFixture where
  arrayLength : Nat
  inputValues : List Int
  referenceValues : List Bool

namespace CompressBoolsFixture

def constructed : CompressBoolsFixture := ⟨0, [], []⟩

/-- `getExperimentValues`, for any values of its two constants. -/
def getExperimentValues (maxArrayLen benchSteps : Nat) : List (Nat × Nat) :=
  let stepCount := maxArrayLen / benchSteps
  (List.range benchSteps).map fun i => (stepCount + i * stepCount, i + 1)

/-- `CompressBoolsFixture::setUp`. -/
def setUp (world : Surroundings) (experimentValue : Nat) : CompressBoolsFixture :=
  let inputValues := (List.range experimentValue).map world.dist
  { arrayLength := experimentValue
    inputValues := inputValues
    referenceValues := inputValues.map fun value => decide (value > thresholdValue) }

/-- The body of the three benchmarks that keep one boolean for each element. -/
def compareAll (base : CompressBoolsFixture) (outputValues : List Bool) : Except Fault (List Bool) :=
  compareEach thresholdValue base.arrayLength base.inputValues id outputValues

/-- `for (i = 0; i < arrayLength; ++i) Checker(val, referenceValues[i], i);` -/
def checkAll (base : CompressBoolsFixture) (val : Nat → Except Fault Bool) :
    Except Fault (List CheckerCall) :=
  (List.range base.arrayLength).mapM fun i => do
    let v ← val i
    let reference ← readAt base.referenceValues i
    pure ⟨v, reference, i⟩

def expected (base : CompressBoolsFixture) (i : Nat) : Bool := above thresholdValue base.inputValues i

variable (world : Surroundings) (n : Nat)

theorem length_setUp : (setUp world n).inputValues.length = n := by
  simp [setUp]

theorem range_setUp : ∀ value ∈ (setUp world n).inputValues, 0 ≤ value ∧ value ≤ maxDist := by
  intro value hvalue
  obtain ⟨i, -, rfl⟩ := List.mem_map.mp hvalue
  exact world.dist_range i

theorem expected_setUp {i : Nat} (hi : i < n) :
    (setUp world n).expected i = decide (world.dist i > thresholdValue) := by
  have hlen := length_setUp world n
  rw [expected, above_eq _ (hlen.symm ▸ hi)]
  simp [setUp]

theorem compareAll_expected {outputValues : List Bool} (hlen : n ≤ outputValues.length) :
    Succeeds ((setUp world n).compareAll outputValues) fun outputValues' =>
      outputValues'.length = outputValues.length ∧
      ∀ i, i < n → readAt outputValues' i = .ok ((setUp world n).expected i) := by
  refine ⟨_, compareEach_eq _ id (length_setUp world n).ge hlen, length_overwrite _ _ _, fun i hi => ?_⟩
  have hlt : i < outputValues.length := lt_of_lt_of_le hi hlen
  have hwritten : i ∈ Finset.range (setUp world n).arrayLength := Finset.mem_range.mpr hi
  rw [readAt, getElem?_overwrite, List.getElem?_eq_getElem hlt, Option.map_some, if_pos hwritten]
  rfl

theorem checkAll_quiet {val : Nat → Except Fault Bool}
    (hval : ∀ i, i < n → val i = .ok ((setUp world n).expected i)) :
    Succeeds ((setUp world n).checkAll val) fun calls => ∀ c ∈ calls, c.val = c.reference := by
  have hturn : ∀ i ∈ List.range (setUp world n).arrayLength, Succeeds (do
      let v ← val i
      let reference ← readAt (setUp world n).referenceValues i
      pure (⟨v, reference, i⟩ : CheckerCall)) fun c => c.val = c.reference := by
    intro i hi
    have hin : i < n := List.mem_range.mp hi
    have hreference : readAt (setUp world n).referenceValues i = .ok ((setUp world n).expected i) := by
      rw [expected_setUp world n hin, readAt_of_lt (by simpa [setUp] using hin)]
      simp [setUp]
    rw [hval i hin, hreference]
    exact .ok rfl
  exact Succeeds.mapM hturn

end CompressBoolsFixture

open CompressBoolsFixture (getExperimentValues)

theorem getExperimentValues_bounds {maxArrayLen benchSteps : Nat} (hsteps : 1 ≤ benchSteps)
    (hle : benchSteps ≤ maxArrayLen) {pair : Nat × Nat} (h : pair ∈ getExperimentValues maxArrayLen benchSteps) :
    1 ≤ pair.1 ∧ pair.1 ≤ maxArrayLen ∧ 1 ≤ pair.2 := by
  obtain ⟨i, hi, rfl⟩ := List.mem_map.mp h
  have hi' : i < benchSteps := List.mem_range.mp hi
  have hstep : 1 ≤ maxArrayLen / benchSteps := (Nat.one_le_div_iff (by omega)).mpr hle
  refine ⟨by simp only; omega, ?_, by simp only; omega⟩
  calc maxArrayLen / benchSteps + i * (maxArrayLen / benchSteps)
      = (i + 1) * (maxArrayLen / benchSteps) := by rw [Nat.succ_mul, Nat.add_comm]
    _ ≤ benchSteps * (maxArrayLen / benchSteps) := Nat.mul_le_mul_right _ hi'
    _ ≤ maxArrayLen := Nat.mul_div_le _ _

def CompressBoolsFixture.IsFor (base : CompressBoolsFixture) (p : Problem) : Prop :=
  base = .setUp p.world p.experimentValue

/-! ### Storages of booleans -/

structure NoPackingFixture extends CompressBoolsFixture where
  outputValues : List Bool

/-- The baseline `NoPackingVersion` with its fixture. -/
def noPackingVersion : TestFixture NoPackingFixture where
  setUp world experimentValue _ :=
    let base := CompressBoolsFixture.setUp world experimentValue
    { base with outputValues := (List.range (uint32 base.arrayLength)).map world.newBool }
  userBenchmark _ _ s := do
    let outputValues ← s.compareAll s.outputValues
    pure { s with outputValues := outputValues }
  tearDown s := do
    let calls ← s.checkAll (readAt s.outputValues)
    pure (s, calls)

structure StdBitsetFixture extends CompressBoolsFixture where
  outputBitset : List Bool

def StdBitsetFixture.constructed (maxArrayLen : Nat) : StdBitsetFixture :=
  { CompressBoolsFixture.constructed with outputBitset := List.replicate maxArrayLen false }

/-- `StdBitset` with its fixture, which has no set-up of its own. -/
def stdBitset : TestFixture StdBitsetFixture where
  setUp world experimentValue s :=
    { CompressBoolsFixture.setUp world experimentValue with outputBitset := s.outputBitset }
  userBenchmark _ _ s := do
    let outputBitset ← s.compareAll s.outputBitset
    pure { s with outputBitset := outputBitset }
  tearDown s := do
    let calls ← s.checkAll (readAt s.outputBitset)
    pure (s, calls)

structure StdVectorFixture extends CompressBoolsFixture where
  outputVector : List Bool

/-- `std::vector<bool>::resize`: the elements below both sizes stay. -/
def resize (values : List Bool) (size : Nat) : List Bool :=
  values.take size ++ List.replicate (size - values.length) false

theorem length_resize (values : List Bool) (size : Nat) : (resize values size).length = size := by
  simp only [resize, List.length_append, List.length_take, List.length_replicate]
  omega

/-- `StdVector` with its fixture. -/
def stdVector : TestFixture StdVectorFixture where
  setUp world experimentValue s :=
    { CompressBoolsFixture.setUp world experimentValue with
      outputVector := resize s.outputVector (uint32 experimentValue) }
  userBenchmark _ _ s := do
    let outputVector ← s.compareAll s.outputVector
    pure { s with outputVector := outputVector }
  tearDown s := do
    let calls ← s.checkAll (readAt s.outputVector)
    pure (s, calls)

section Booleans

variable {maxArrayLen : Nat}

private theorem compareAll_isFor {base : CompressBoolsFixture} {p : Problem} (hbase : base.IsFor p)
    {outputValues : List Bool} (hlen : p.experimentValue ≤ outputValues.length) :
    Succeeds (base.compareAll outputValues) fun outputValues' =>
      outputValues'.length = outputValues.length ∧
      ∀ i, i < p.experimentValue → readAt outputValues' i = .ok (base.expected i) := by
  subst hbase
  exact CompressBoolsFixture.compareAll_expected _ _ hlen

private theorem checkAll_isFor {base : CompressBoolsFixture} {p : Problem} (hbase : base.IsFor p)
    {val : Nat → Except Fault Bool}
    (hval : ∀ i, i < p.experimentValue → val i = .ok (base.expected i)) :
    Succeeds (base.checkAll val) fun calls => ∀ c ∈ calls, c.val = c.reference := by
  subst hbase
  exact CompressBoolsFixture.checkAll_quiet _ _ hval

theorem noPackingVersion_quiet (hmax : maxArrayLen < 2 ^ 31) :
    noPackingVersion.Quiet (·.experimentValue ≤ maxArrayLen) (fun _ _ => True)
    (fun _ p s => s.IsFor p ∧ s.outputValues.length = p.experimentValue)
    (fun p s => ∀ i, i < p.experimentValue → readAt s.outputValues i = .ok (s.expected i)) where
  setUp _ p s hp _ := by
    refine ⟨rfl, ?_⟩
    have hlt : p.experimentValue < 2 ^ 32 := by omega
    simp [noPackingVersion, CompressBoolsFixture.setUp, uint32_of_lt hlt]
  userBenchmark _ _ _ _ _ hs :=
    (compareAll_isFor hs.1 hs.2.ge).bind fun _ h => .ok ⟨⟨hs.1, h.1.trans hs.2⟩, h.2⟩
  tearDown _ _ _ _ hs hfilled := (checkAll_isFor hs.1 hfilled).bind fun _ h => .ok ⟨trivial, h⟩

/-- The bitset keeps its size, and the bits a longer problem left above a shorter one are not read. -/
theorem stdBitset_quiet : stdBitset.Quiet (·.experimentValue ≤ maxArrayLen)
    (fun _ s => s.outputBitset.length = maxArrayLen)
    (fun _ p s => s.IsFor p ∧ s.outputBitset.length = maxArrayLen)
    (fun p s => ∀ i, i < p.experimentValue → readAt s.outputBitset i = .ok (s.expected i)) where
  setUp _ _ _ _ hs := ⟨rfl, hs⟩
  userBenchmark _ _ _ _ hp hs :=
    (compareAll_isFor hs.1 (hs.2 ▸ hp)).bind fun _ h => .ok ⟨⟨hs.1, h.1.trans hs.2⟩, h.2⟩
  tearDown _ _ _ _ hs hfilled := (checkAll_isFor hs.1 hfilled).bind fun _ h => .ok ⟨hs.2, h⟩

theorem stdVector_quiet (hmax : maxArrayLen < 2 ^ 31) :
    stdVector.Quiet (·.experimentValue ≤ maxArrayLen) (fun _ _ => True)
    (fun _ p s => s.IsFor p ∧ s.outputVector.length = p.experimentValue)
    (fun p s => ∀ i, i < p.experimentValue → readAt s.outputVector i = .ok (s.expected i)) where
  setUp _ p s hp _ := by
    have hlt : p.experimentValue < 2 ^ 32 := by omega
    exact ⟨rfl, (length_resize _ _).trans (uint32_of_lt hlt)⟩
  userBenchmark _ _ _ _ _ hs :=
    (compareAll_isFor hs.1 hs.2.ge).bind fun _ h => .ok ⟨⟨hs.1, h.1.trans hs.2⟩, h.2⟩
  tearDown _ _ _ _ hs hfilled := (checkAll_isFor hs.1 hfilled).bind fun _ h => .ok ⟨trivial, h⟩

end Booleans

/-! ### Packed bytes -/

structure ManualVersionFixture extends CompressBoolsFixture where
  numBytes : Nat
  numFullBytes : Nat
  outputValues : List Byte

def getBoolIn (outputValues : List Byte) (pos : Nat) : Except Fault Bool := do
  let _ ← readAt outputValues (pos / 8)
  pure (getBoolAt pos outputValues)

/-- A benchmark of `ManualVersionFixture`, by what its body writes in a turn. -/
def manualVersion (body : Surroundings → Nat → ManualVersionFixture → List Byte) :
    TestFixture ManualVersionFixture where
  setUp world experimentValue _ :=
    let numBytes := numBytesOf experimentValue
    { CompressBoolsFixture.setUp world experimentValue with
      numBytes := numBytes
      numFullBytes := numFullBytesOf experimentValue
      outputValues := (List.range numBytes).map world.newByte }
  userBenchmark world turn s := .ok { s with outputValues := body world turn s }
  tearDown s := do
    let calls ← s.checkAll (getBoolIn s.outputValues)
    pure (s, calls)

/-- `SingleVarVersion` on its fixture. -/
def singleVarFixture : TestFixture ManualVersionFixture := manualVersion fun _ _ s =>
  (singleVarVersion thresholdValue s.arrayLength s.inputValues s.outputValues).out

/-- `NotDepentendVersion` on its fixture. -/
def notDepentendFixture : TestFixture ManualVersionFixture := manualVersion fun _ _ s =>
  (notDepentendVersion thresholdValue s.arrayLength s.inputValues s.outputValues).out

/-- `WithOpenMP` on its fixture, its iterations in sequential order. -/
def withOpenMPFixture : TestFixture ManualVersionFixture := manualVersion fun world turn s =>
  (withOpenMP thresholdValue s.arrayLength s.numBytes s.numFullBytes s.inputValues (world.bits turn)
    s.outputValues).out

structure ManualVersionFixture.IsReady (s : ManualVersionFixture) (p : Problem) : Prop where
  base : s.IsFor p
  numBytes : s.numBytes = numBytesOf p.experimentValue
  numFullBytes : s.numFullBytes = numFullBytesOf p.experimentValue
  length : s.outputValues.length = wordCount 8 p.experimentValue

theorem CompressBoolsFixture.IsFor.arrayLength {base : CompressBoolsFixture} {p : Problem}
    (h : base.IsFor p) : base.arrayLength = p.experimentValue := by
  rw [h]
  rfl

theorem Packed.getBoolIn {f : Nat → Bool} {n maxShift : Nat} {m : Mem} (h : Packed f n maxShift m) {pos : Nat}
    (hpos : pos < n) : getBoolIn m.out pos = .ok (f pos) := by
  have hlt : pos / 8 < m.out.length := by
    rw [h.out, length_pack, wordCount_eight]
    omega
  rw [BenchmarkLibs.getBoolIn, readAt_of_lt hlt, h.getBoolAt, decide_eq_true hpos, Bool.true_and]
  rfl

section Bytes

variable {maxArrayLen : Nat}

/-- Every body that packs the comparisons makes a fixture that reports nothing. -/
theorem manualVersion_quiet (hmax : maxArrayLen < 2 ^ 31)
    {body : Surroundings → Nat → ManualVersionFixture → List Byte}
    (hbody : ∀ (p : Problem) turn (s : ManualVersionFixture), p.experimentValue ≤ maxArrayLen → s.IsReady p →
      ∃ m, Packed s.expected p.experimentValue 7 m ∧ m.out = body p.world turn s) :
    (manualVersion body).Quiet (·.experimentValue ≤ maxArrayLen) (fun _ _ => True) (fun _ p s => s.IsReady p)
      (fun p s => ∀ i, i < p.experimentValue → getBoolIn s.outputValues i = .ok (s.expected i)) where
  setUp _ p s hp _ := by
    have hcount : numBytesOf p.experimentValue = wordCount 8 p.experimentValue := numBytesOf_eq (by omega)
    exact ⟨rfl, rfl, rfl, by simp [manualVersion, hcount]⟩
  userBenchmark _ p turn s hp hs := by
    obtain ⟨m, hpacked, hout⟩ := hbody p turn s hp hs
    refine .ok ⟨⟨hs.base, hs.numBytes, hs.numFullBytes, ?_⟩, fun i hi => ?_⟩
    · simp only [← hout, hpacked.out, length_pack]
    · simp only [← hout]
      exact hpacked.getBoolIn hi
  tearDown _ _ _ _ hs hfilled := (checkAll_isFor hs.base hfilled).bind fun _ h => .ok ⟨trivial, h⟩

theorem singleVarFixture_quiet (hmax : maxArrayLen < 2 ^ 31) :
    singleVarFixture.Quiet (·.experimentValue ≤ maxArrayLen) (fun _ _ => True) (fun _ p s => s.IsReady p)
      (fun p s => ∀ i, i < p.experimentValue → getBoolIn s.outputValues i = .ok (s.expected i)) :=
  manualVersion_quiet hmax fun _ _ _ _ hs =>
    ⟨_, hs.base.arrayLength ▸ singleVarVersion_packed _ _ (hs.base.arrayLength ▸ hs.length), rfl⟩

theorem notDepentendFixture_quiet (hmax : maxArrayLen < 2 ^ 31) :
    notDepentendFixture.Quiet (·.experimentValue ≤ maxArrayLen) (fun _ _ => True) (fun _ p s => s.IsReady p)
      (fun p s => ∀ i, i < p.experimentValue → getBoolIn s.outputValues i = .ok (s.expected i)) :=
  manualVersion_quiet hmax fun _ _ _ _ hs =>
    ⟨_, hs.base.arrayLength ▸ notDepentendVersion_packed _ _ (hs.base.arrayLength ▸ hs.length), rfl⟩

theorem withOpenMPFixture_quiet (hmax : maxArrayLen < 2 ^ 31) :
    withOpenMPFixture.Quiet (·.experimentValue ≤ maxArrayLen) (fun _ _ => True) (fun _ p s => s.IsReady p)
      (fun p s => ∀ i, i < p.experimentValue → getBoolIn s.outputValues i = .ok (s.expected i)) := by
  refine manualVersion_quiet hmax fun p turn s hp hs => ⟨_, ?_, rfl⟩
  rw [hs.base.arrayLength, hs.numBytes, hs.numFullBytes]
  exact withOpenMP_sequential_packed _ _ (by omega) _ hs.length

end Bytes

/-! ### The aligned buffer of `SimdVersion` -/

structure AlignedBlock where
  address : Nat
  bytes : List Byte

structure AlignedHeap where
  allocated : List Nat
  freed : List Nat

namespace AlignedHeap

/-- `_aligned_malloc(size, 16)`, of a block that holds `newByte`. -/
def alignedMalloc (heap : AlignedHeap) (size : Nat) (newByte : Nat → Byte) : AlignedBlock × AlignedHeap :=
  (⟨heap.allocated.length, (List.range size).map newByte⟩,
    { heap with allocated := heap.allocated ++ [heap.allocated.length] })

/-- `_aligned_free(block)`. -/
def alignedFree (heap : AlignedHeap) (block : AlignedBlock) : AlignedHeap :=
  { heap with freed := heap.freed ++ [block.address] }

end AlignedHeap

structure SimdVersionFixture extends CompressBoolsFixture where
  numBytes : Nat
  numFullBytes : Nat
  alignedOutputValues : Option AlignedBlock
  signedInputValues : List Byte
  heap : AlignedHeap

/-- The object before its first `setUp`; `numBytes` and `numFullBytes` have no initializer. -/
def SimdVersionFixture.constructed (numBytes numFullBytes : Nat) : SimdVersionFixture :=
  { CompressBoolsFixture.constructed with
    numBytes := numBytes
    numFullBytes := numFullBytes
    alignedOutputValues := none
    signedInputValues := []
    heap := ⟨[], []⟩ }

/-- `SimdVersion` with its fixture. -/
def simdFixture (sse : Sse2) : TestFixture SimdVersionFixture where
  setUp world experimentValue s :=
    let base := CompressBoolsFixture.setUp world experimentValue
    let numBytes := numBytesOf experimentValue
    let (block, heap) := s.heap.alignedMalloc numBytes world.newByte
    { base with
      numBytes := numBytes
      numFullBytes := numFullBytesOf experimentValue
      alignedOutputValues := some block
      signedInputValues := signedInputValuesOf base.arrayLength base.inputValues
      heap := heap }
  userBenchmark _ _ s := do
    let block ← deref s.alignedOutputValues
    let m := simdVersion sse thresholdValue s.arrayLength s.signedInputValues block.bytes
    pure { s with alignedOutputValues := some { block with bytes := m.out } }
  tearDown s := do
    let calls ← s.checkAll fun i => do
      let block ← deref s.alignedOutputValues
      getBoolIn block.bytes i
    match s.alignedOutputValues with
    | some block =>
      pure ({ s with alignedOutputValues := none, heap := s.heap.alignedFree block }, calls)
    | none => pure (s, calls)

/-- Between two problems there is no block left: the ones allocated, one a problem, are all freed. -/
structure SimdVersionFixture.IsIdle (done : Nat) (s : SimdVersionFixture) : Prop where
  null : s.alignedOutputValues = none
  allocated : s.heap.allocated = List.range done
  freed : s.heap.freed = List.range done

/-- From the set-up on the object holds the last block allocated, the only one not freed. -/
structure SimdVersionFixture.IsReady (done : Nat) (p : Problem) (s : SimdVersionFixture) : Prop where
  base : s.IsFor p
  signed : s.signedInputValues = signedInputValuesOf s.arrayLength s.inputValues
  allocated : s.heap.allocated = List.range (done + 1)
  freed : s.heap.freed = List.range done
  block : ∃ block, s.alignedOutputValues = some block ∧ block.address = done ∧
    block.bytes.length = wordCount 8 p.experimentValue

def SimdVersionFixture.IsFilled (p : Problem) (s : SimdVersionFixture) : Prop :=
  ∀ block, s.alignedOutputValues = some block →
    ∀ i, i < p.experimentValue → getBoolIn block.bytes i = .ok (s.expected i)

theorem simdFixture_quiet {sse : Sse2} (hsse : sse.Documented) {maxArrayLen : Nat}
    (hmax : maxArrayLen < 2 ^ 31) :
    (simdFixture sse).Quiet (·.experimentValue ≤ maxArrayLen) SimdVersionFixture.IsIdle
      SimdVersionFixture.IsReady SimdVersionFixture.IsFilled where
  setUp done p s hp hs := by
    have hcount : numBytesOf p.experimentValue = wordCount 8 p.experimentValue := numBytesOf_eq (by omega)
    have hlen : s.heap.allocated.length = done := by rw [hs.allocated, List.length_range]
    refine ⟨rfl, rfl, ?_, hs.freed, _, rfl, hlen, by simp [hcount]⟩
    simp only [simdFixture, AlignedHeap.alignedMalloc, hlen]
    rw [hs.allocated, List.range_succ]
  userBenchmark done p turn s hp hs := by
    obtain ⟨hbase, hsigned, hallocated, hfreed, block, hblock, haddress, hlen⟩ := hs
    have hpacked : Packed s.expected p.experimentValue 15
        (simdVersion sse thresholdValue s.arrayLength s.signedInputValues block.bytes) := by
      rw [hsigned, hbase.arrayLength]
      refine (simdVersion_packed hsse _ _ hlen).congr fun i hi => ?_
      have hthreshold : 0 ≤ thresholdValue ∧ thresholdValue ≤ 255 := by decide
      have hrange := CompressBoolsFixture.range_setUp p.world p.experimentValue
      have hcount := CompressBoolsFixture.length_setUp p.world p.experimentValue
      rw [← hbase] at hrange hcount
      have habove := signedAbove_eq hthreshold hrange (hcount.symm ▸ hi)
      rwa [hcount] at habove
    simp only [simdFixture, hblock, deref]
    refine .ok ⟨⟨hbase, hsigned, hallocated, hfreed, _, rfl, haddress, ?_⟩, ?_⟩
    · simp only [hpacked.out, length_pack]
    · intro _ hblock' i hi
      rw [← Option.some.inj hblock']
      exact hpacked.getBoolIn hi
  tearDown done p s _ hs hfilled := by
    obtain ⟨hbase, -, hallocated, hfreed, block, hblock, haddress, -⟩ := hs
    simp only [simdFixture, hblock, deref]
    refine (checkAll_isFor hbase (hfilled block hblock)).bind fun calls hcalls => ?_
    refine .ok ⟨⟨rfl, hallocated, ?_⟩, hcalls⟩
    simp only [AlignedHeap.alignedFree, hfreed, haddress, List.range_succ]

/-! ### Whole runs -/

/-- A run over all the problems ends without a fault, and every call of `Checker` has equal values. -/
def TestFixture.ReportsNothing {σ : Type} (F : TestFixture σ) (problems : List Problem) (s : σ) : Prop :=
  Succeeds (F.runAll problems s) fun (_, calls) => ∀ c ∈ calls, c.val = c.reference

theorem TestFixture.Quiet.reportsNothing {σ : Type} {F : TestFixture σ} {Admissible : Problem → Prop}
    {Idle : Nat → σ → Prop} {Ready : Nat → Problem → σ → Prop} {Filled : Problem → σ → Prop}
    (h : F.Quiet Admissible Idle Ready Filled) {s : σ} (hs : Idle 0 s) {problems : List Problem}
    (hproblems : ∀ p ∈ problems, Admissible p ∧ 1 ≤ p.iterations) : F.ReportsNothing problems s :=
  (h.runAll hs problems hproblems).imp fun _ h => h.2

/-- Whatever problems of `getExperimentValues` one object of a fixture is run on, in whatever order, none
of the seven fixtures reports a mismatch or faults, which for `StdBitset` is what `set` does outside the
bitset. After each number of problems `alignedOutputValues` is null, with one block allocated for each of
them and freed once. -/
theorem fixtures_reportNothing (sse : Sse2) (hsse : sse.Documented) (maxArrayLen benchSteps : Nat)
    (hsteps : 1 ≤ benchSteps) (hle : benchSteps ≤ maxArrayLen) (hmax : maxArrayLen < 2 ^ 31) :
    (∀ pair ∈ getExperimentValues maxArrayLen benchSteps,
      1 ≤ pair.1 ∧ pair.1 ≤ maxArrayLen ∧ 1 ≤ pair.2) ∧
    ∀ problems : List Problem,
      (∀ p ∈ problems, (p.experimentValue, p.iterations) ∈ getExperimentValues maxArrayLen benchSteps) →
      (∀ s, noPackingVersion.ReportsNothing problems s) ∧
      stdBitset.ReportsNothing problems (.constructed maxArrayLen) ∧
      (∀ s, stdVector.ReportsNothing problems s) ∧
      (∀ s, singleVarFixture.ReportsNothing problems s) ∧
      (∀ s, notDepentendFixture.ReportsNothing problems s) ∧
      (∀ s, withOpenMPFixture.ReportsNothing problems s) ∧
      ∀ numBytes numFullBytes,
        (simdFixture sse).ReportsNothing problems (.constructed numBytes numFullBytes) ∧
        ∀ done, done <+: problems →
          Succeeds ((simdFixture sse).runAll done (.constructed numBytes numFullBytes)) fun (s, _) =>
            s.alignedOutputValues = none ∧ s.heap.allocated = List.range done.length ∧
            s.heap.freed = List.range done.length := by
  refine ⟨fun pair hpair => getExperimentValues_bounds hsteps hle hpair, fun problems hproblems => ?_⟩
  have hall : ∀ p ∈ problems, p.experimentValue ≤ maxArrayLen ∧ 1 ≤ p.iterations := fun p hp =>
    (getExperimentValues_bounds hsteps hle (hproblems p hp)).2
  have hidle : ∀ numBytes numFullBytes,
      SimdVersionFixture.IsIdle 0 (.constructed numBytes numFullBytes) := fun _ _ => ⟨rfl, rfl, rfl⟩
  refine ⟨fun s => (noPackingVersion_quiet hmax).reportsNothing trivial hall,
    stdBitset_quiet.reportsNothing List.length_replicate hall,
    fun s => (stdVector_quiet hmax).reportsNothing trivial hall,
    fun s => (singleVarFixture_quiet hmax).reportsNothing trivial hall,
    fun s => (notDepentendFixture_quiet hmax).reportsNothing trivial hall,
    fun s => (withOpenMPFixture_quiet hmax).reportsNothing trivial hall, fun numBytes numFullBytes => ⟨?_, ?_⟩⟩
  · exact (simdFixture_quiet hsse hmax).reportsNothing (hidle _ _) hall
  · intro done hdone
    have hrun := (simdFixture_quiet hsse hmax).runAll (hidle numBytes numFullBytes) done
      fun p hp => hall p (hdone.subset hp)
    exact hrun.imp fun _ h => ⟨h.1.null, h.1.allocated, h.1.freed⟩

def alternating : Surroundings where
  dist i := if i % 2 = 0 then 127 else 128
  dist_range i := by split <;> decide
  newBool _ := true
  newByte _ := 0xFF
  bits _ := Vector.replicate 8 0xFF

theorem fixtures_reportNothing_twenty :
    stdBitset.ReportsNothing [⟨20, 2, alternating⟩, ⟨10, 1, alternating⟩] (.constructed 20) ∧
    (simdFixture .lanes).ReportsNothing [⟨20, 2, alternating⟩, ⟨10, 1, alternating⟩] (.constructed 0 0) := by
  have h := (fixtures_reportNothing .lanes Sse2.lanes_documented 20 2 (by decide) (by decide) (by decide)).2
    [⟨20, 2, alternating⟩, ⟨10, 1, alternating⟩] (by
      simp only [List.mem_cons, List.not_mem_nil, or_false, forall_eq_or_imp, forall_eq]
      decide)
  exact ⟨h.2.1, (h.2.2.2.2.2.2 0 0).1⟩

end BenchmarkLibs

import BenchmarkLibs.Base.Interleaving
import BenchmarkLibs.Packing.Scalar

/-!
# The packer with a parallel loop

`WithOpenMP` gives the iterations of its loop to threads. Each thread has a `Bits` of its own; the output
buffer is shared. The model of the parallel region is the step relation of `Interleaving`: the iterations
are dealt to the threads in any way, and a step is one assignment to an entry of some thread's `Bits` or
one store of a byte. An iteration prepares in `Bits` and commits with its store, so a finished region has
written what its iterations write one after the other (`parallelLoop_written`), and the tail block that
follows completes the buffer.
-/

namespace BenchmarkLibs

open BitPacking Overwrite Interleaving

/-- What a thread does in iteration `i`: the condition and the pointer, the assignments to the entries of
`Bits`, and the store of the byte. -/
inductive OmpOp
  | enter (i : Nat)
  | assign (i j mask : Nat)
  | store (i : Nat)

/-- `inputValues.get() + i*8`, with `i` and `i*8` of type `int`. A negative product has no meaning as an
index; the log then holds the event that tells it apart. -/
def ompPointer (i : Nat) : Nat := (int32 (int32 i * 8)).toNat

/-- The effect of an operation on the `Bits` of its thread and on the memory. -/
def OmpOp.act (above : Nat → Bool) : OmpOp → Vector Byte 8 → Mem → Vector Byte 8 × Mem
  | .enter i, bits, m =>
    -- `i` is an `int`, converted to `unsigned int` to be compared with `numFullBytes`
    (bits, m.note [.arith i (int32 i), .arith i (int32 i % 2 ^ 32), .arith (i * 8) (int32 (int32 i * 8))])
  | .assign i j mask, bits, m => assignBit above (ompPointer i + j) j mask (bits, m)
  | .store i, bits, m => (bits, storeBits [0, 1, 2, 3, 4, 5, 6, 7] i (bits, m))

def ompBody (i : Nat) : List OmpOp :=
  .enter i :: blockMasks.map fun entry => .assign i entry.1 entry.2

abbrev ompIteration (i : Nat) : List OmpOp := taskOps ompBody .store i

abbrev OmpConfig (threads : Nat) := Config (Fin threads) OmpOp (Vector Byte 8) Mem

/-- The parallel region before its first step: `work t` are the iterations of thread `t`, in the order in
which it will run them, and `bits t` is what its private `Bits` holds. -/
def ompStart {threads : Nat} (work : Fin threads → List Nat) (bits : Fin threads → Vector Byte 8)
    (outputValues : List Byte) : OmpConfig threads where
  pending t := (work t).flatMap ompIteration
  priv := bits
  shared := ⟨outputValues, []⟩

/-- The block after the parallel region. -/
def ompTail (above : Nat → Bool) (arrayLength numBytes numFullBytes : Nat) (m : Mem) : Mem :=
  if numFullBytes < numBytes then
    let restW := arrayLength &&& 7
    let pInputData := uint32 (numFullBytes * 8)
    let m := m.note [.arith (numFullBytes * 8) (uint32 (numFullBytes * 8))]
    let tail := tailLoop 8 8 above restW pInputData m
    storeBits [0, 1, 2, 3, 4, 5, 6] numFullBytes (tail.bits, tail.mem)
  else m

/-- `ManualVersionFixture::setUp`'s `numBytes` and `numFullBytes`, cast to `unsigned int`. -/
def numBytesOf (experimentValue : Nat) : Nat := uint32 ((experimentValue + 7) / 8)

def numFullBytesOf (experimentValue : Nat) : Nat := uint32 (experimentValue / 8)

theorem numBytesOf_eq {n : Nat} (hn : n < 2 ^ 31) : numBytesOf n = wordCount 8 n :=
  uint32_of_lt (by omega)

theorem numFullBytesOf_eq {n : Nat} (hn : n < 2 ^ 31) : numFullBytesOf n = n / 8 :=
  uint32_of_lt (by omega)

/-! ### Iterations as tasks -/

theorem ompPointer_eq {i n : Nat} (hn : n < 2 ^ 31) (hi : i < n / 8) : ompPointer i = 8 * i := by
  have hi32 : int32 i = i := int32_of_lt (by omega)
  have hprod : int32 ((i * 8 : Nat) : Int) = ((i * 8 : Nat) : Int) := int32_of_lt (by omega)
  rw [ompPointer, hi32, show (i : Int) * 8 = ((i * 8 : Nat) : Int) by push_cast; rfl, hprod, Int.toNat_natCast,
    Nat.mul_comm]

def OmpOp.prep (above : Nat → Bool) : OmpOp → Vector Byte 8 → Vector Byte 8
  | .assign i j mask, bits =>
    bits.setIfInBounds j (BitVec.ofNat 8 (if above (ompPointer i + j) then mask else 0))
  | _, bits => bits

def ompByte (above : Nat → Bool) (i : Nat) : Byte := packWord 8 fun j => above (ompPointer i + j)

private theorem mem_ompBody {i : Nat} {op : OmpOp} (hop : op ∈ ompBody i) :
    op = .enter i ∨ ∃ j, j < 8 ∧ op = .assign i j (2 ^ j) := by
  rw [ompBody, blockMasks_eq, List.map_map, List.mem_cons, List.mem_map] at hop
  rcases hop with rfl | ⟨j, hj, rfl⟩
  · exact .inl rfl
  · exact .inr ⟨j, List.mem_range.mp hj, rfl⟩

/-- An iteration leaves the output as it is up to its store, and the store does not depend on what `Bits`
held when the iteration began. -/
theorem ompIteration_committing (above : Nat → Bool) :
    Committing (OmpOp.act above) ompBody .store (OmpOp.prep above) Mem.out
      fun i out => out.set i (ompByte above i) where
  body_priv i op hop bits m := by
    rcases mem_ompBody hop with rfl | ⟨j, _, rfl⟩
    · rfl
    · rfl
  body_shared i op hop bits m := by
    rcases mem_ompBody hop with rfl | ⟨j, _, rfl⟩
    · rfl
    · rfl
  commit_shared i bits m := by
    have hbits : (ompBody i).foldl (fun bits op => op.prep above bits) bits
        = (assignBlock above (ompPointer i) (bits, m)).1 := rfl
    rw [hbits]
    have hbyte : BitVec.ofNat 8 (orEntries (assignBlock above (ompPointer i) (bits, m)).1
        [0, 1, 2, 3, 4, 5, 6, 7]) = ompByte above i :=
      ofNat_orEntries_full (assignBlock_masks above (ompPointer i) (bits, m))
    rw [← hbyte]
    rfl

/-! ### What a finished region has done -/

section Region

variable {threads n : Nat} {above : Nat → Bool} {work : Fin threads → List Nat}
  {bits : Fin threads → Vector Byte 8} {outputValues : List Byte} {c : OmpConfig threads}

private theorem order_range {order : List Nat} {count : Nat} (h : (order : Multiset Nat) = Multiset.range count) :
    order.toFinset = Finset.range count := by
  rw [← List.toFinset_coe, h]
  exact Multiset.toFinset_range count

theorem parallelLoop_out (hn : n < 2 ^ 31) (hwork : ∑ t, (work t : Multiset Nat) = Multiset.range (n / 8))
    (hrun : Steps (OmpOp.act above) (ompStart work bits outputValues) c) (hdone : c.Done) :
    c.shared.out = overwrite (packedWord 8 above n) (Finset.range (n / 8)) outputValues := by
  obtain ⟨order, horder, hout⟩ := hrun.serializes (ompIteration_committing above) work (fun _ => rfl) hdone
  rw [hwork] at horder
  rw [hout, foldl_set (ompByte above), order_range horder]
  apply overwrite_congr
  intro i hi
  have hi := Finset.mem_range.mp hi
  rw [packedWord_full above (by omega), ompByte, ompPointer_eq hn hi]

def OmpOp.reads : OmpOp → Multiset Nat
  | .assign i j _ => {ompPointer i + j}
  | _ => 0

def OmpOp.writes : OmpOp → Multiset Nat
  | .store i => {i}
  | _ => 0

theorem OmpOp.act_reads (op : OmpOp) (bits : Vector Byte 8) (m : Mem) :
    ((op.act above bits m).2.reads : Multiset Nat) = m.reads + op.reads := by
  cases op with
  | enter i => simp [OmpOp.act, OmpOp.reads, Mem.reads, Mem.note, Event.reads]
  | assign i j mask =>
    simp [OmpOp.act, OmpOp.reads, Mem.reads, Mem.note, assignBit, Event.reads, ← Multiset.coe_add]
  | store i =>
    simp [OmpOp.act, OmpOp.reads, Mem.reads, Mem.note, Mem.storeByte, storeBits, Event.reads]

theorem OmpOp.act_writes (op : OmpOp) (bits : Vector Byte 8) (m : Mem) :
    ((op.act above bits m).2.writes : Multiset Nat) = m.writes + op.writes := by
  cases op with
  | enter i => simp [OmpOp.act, OmpOp.writes, Mem.writes, Mem.note, Event.writes]
  | assign i j mask => simp [OmpOp.act, OmpOp.writes, Mem.writes, Mem.note, assignBit, Event.writes]
  | store i =>
    simp [OmpOp.act, OmpOp.writes, Mem.writes, Mem.note, Mem.storeByte, storeBits, Event.writes,
      ← Multiset.coe_add]

private theorem blocks_range (count : Nat) :
    ((Multiset.range count).map fun i => (((List.range 8).map (8 * i + ·) : List Nat) : Multiset Nat)).sum
      = Multiset.range (8 * count) := by
  induction count with
  | zero => rfl
  | succ count ih =>
    rw [Multiset.range_succ, Multiset.map_cons, Multiset.sum_cons, ih, Nat.mul_succ, add_comm]
    change (((List.range (8 * count) : List Nat) : Multiset Nat) + _) = (List.range (8 * count + 8) : List Nat)
    rw [List.range_add, Multiset.coe_add]

private theorem ompIteration_reads (i : Nat) : ((ompIteration i).map OmpOp.reads).sum
    = (((List.range 8).map (ompPointer i + ·) : List Nat) : Multiset Nat) := rfl

private theorem ompIteration_writes (i : Nat) : ((ompIteration i).map OmpOp.writes).sum = {i} := rfl

private theorem sum_singletons (s : Multiset Nat) : (s.map fun i => ({i} : Multiset Nat)).sum = s :=
  Multiset.sum_map_singleton s

theorem OmpOp.act_safe (hn : n < 2 ^ 31) {i : Nat} (hi : i < n / 8) {op : OmpOp} (hop : op ∈ ompIteration i)
    (bits : Vector Byte 8) {m : Mem} (hm : ∀ e ∈ m.log, e.Safe n (wordCount 8 n) 7) :
    ∀ e ∈ (op.act above bits m).2.log, e.Safe n (wordCount 8 n) 7 := by
  have hpointer := ompPointer_eq hn hi
  rcases List.mem_append.mp hop with hop | hop
  · rcases mem_ompBody hop with rfl | ⟨j, hj, rfl⟩
    · intro e he
      have hi32 : int32 i = i := int32_of_lt (by omega)
      have hprod : int32 ((i * 8 : Nat) : Int) = ((i * 8 : Nat) : Int) := int32_of_lt (by omega)
      simp only [OmpOp.act, Mem.note, List.mem_append, List.mem_cons, List.not_mem_nil, or_false] at he
      rcases he with he | rfl | rfl | rfl
      · exact hm e he
      · exact hi32.symm
      · rw [hi32]
        exact (Int.emod_eq_of_lt (by omega) (by omega)).symm
      · rw [hi32]
        push_cast at hprod
        exact hprod.symm
    · intro e he
      rcases List.mem_append.mp he with he | he
      · exact hm e he
      · exact assignBit_safe above (by omega) hj e he
  · rw [List.mem_singleton.mp hop]
    intro e he
    simp only [OmpOp.act, storeBits, Mem.storeByte, Mem.note, List.mem_append, List.mem_map, List.mem_cons,
      List.not_mem_nil, or_false] at he
    rcases he with (he | ⟨j, hj, rfl⟩) | rfl | rfl
    · exact hm e he
    · exact (show j < 8 by omega)
    · exact orEntries_lt _ _
    · exact ⟨(lt_wordCount (by decide)).mpr (by omega), Nat.one_dvd _⟩

/-- Under every schedule the parallel region reads the elements of the full blocks once each and writes
their bytes once each, all safely. -/
theorem parallelLoop_progress (hn : n < 2 ^ 31)
    (hwork : ∑ t, (work t : Multiset Nat) = Multiset.range (n / 8))
    (hrun : Steps (OmpOp.act above) (ompStart work bits outputValues) c) (hdone : c.Done) :
    Progress n 7 (8 * (n / 8)) (n / 8) c.shared := by
  have htotal := fun (cost : OmpOp → Multiset Nat) =>
    pendingCost_tasks cost (c := ompStart work bits outputValues) work fun _ => rfl
  refine ⟨?_, ?_, ?_⟩
  · refine hrun.shared_invariant (fun m => ∀ e ∈ m.log, e.Safe n (wordCount 8 n) 7)
      (fun op => ∃ i, i < n / 8 ∧ op ∈ ompIteration i) ?_ ?_ (by simp [ompStart])
    · rintro op bits m ⟨i, hi, hop⟩ hm
      exact OmpOp.act_safe hn hi hop bits hm
    · intro t op hop
      obtain ⟨i, hi, hop⟩ := List.mem_flatMap.mp hop
      have hmem : i ∈ ∑ t, (work t : Multiset Nat) :=
        Multiset.mem_sum.mpr ⟨t, Finset.mem_univ t, Multiset.mem_coe.mpr hi⟩
      rw [hwork, Multiset.mem_range] at hmem
      exact ⟨i, hmem, hop⟩
  · have hreads := hrun.conserves (fun m => (m.reads : Multiset Nat)) OmpOp.reads OmpOp.act_reads
    rw [pendingCost_of_done hdone, htotal, hwork, add_zero] at hreads
    have hblocks : (Multiset.range (n / 8)).map (fun i => ((ompIteration i).map OmpOp.reads).sum)
        = (Multiset.range (n / 8)).map fun i =>
          (((List.range 8).map (8 * i + ·) : List Nat) : Multiset Nat) := by
      apply Multiset.map_congr rfl
      intro i hi
      rw [ompIteration_reads, ompPointer_eq hn (Multiset.mem_range.mp hi)]
    rw [hblocks, blocks_range] at hreads
    exact Multiset.coe_eq_coe.mp (hreads.trans (zero_add _))
  · have hwrites := hrun.conserves (fun m => (m.writes : Multiset Nat)) OmpOp.writes OmpOp.act_writes
    rw [pendingCost_of_done hdone, htotal, hwork, add_zero] at hwrites
    simp only [ompIteration_writes, sum_singletons] at hwrites
    exact Multiset.coe_eq_coe.mp (hwrites.trans (zero_add _))

theorem parallelLoop_written (hn : n < 2 ^ 31)
    (hwork : ∑ t, (work t : Multiset Nat) = Multiset.range (n / 8))
    (hrun : Steps (OmpOp.act above) (ompStart work bits outputValues) c) (hdone : c.Done) :
    Written above n 7 (8 * (n / 8)) (n / 8) outputValues c.shared :=
  ⟨parallelLoop_progress hn hwork hrun hdone, parallelLoop_out hn hwork hrun hdone⟩

end Region

theorem ompTail_packed {f : Nat → Bool} {n : Nat} {outputValues : List Byte} {m : Mem} (hn : n < 2 ^ 31)
    (h : Written f n 7 (8 * (n / 8)) (n / 8) outputValues m) (hlen : outputValues.length = wordCount 8 n) :
    Packed f n 7 (ompTail f n (numBytesOf n) (numFullBytesOf n) m) := by
  rw [numBytesOf_eq hn, numFullBytesOf_eq hn]
  simp only [ompTail, and_seven]
  by_cases hrest : n % 8 = 0
  · rw [if_neg (by rw [wordCount_eight]; omega)]
    exact h.packed_of_full hlen hrest
  · have hpointer : uint32 (n / 8 * 8) = 8 * (n / 8) := by rw [uint32_of_lt (by omega), Nat.mul_comm]
    rw [if_pos (by rw [wordCount_eight]; omega), hpointer]
    refine Written.packed_of_tail (h.of_out (h.toProgress.note ?_ rfl rfl) rfl) hlen hrest (by decide)
    simp only [List.mem_singleton, forall_eq, Event.Safe]
    omega

/-- Whatever the number of threads, the dealing of the iterations, the interleaving of the assignments and
the contents of the private `Bits`, the finished region and the tail block pack the input. -/
theorem withOpenMP_packed (threshold : Int) (inputValues : List Int) {n threads : Nat} (hn : n < 2 ^ 31)
    {work : Fin threads → List Nat} {bits : Fin threads → Vector Byte 8} {outputValues : List Byte}
    {c : OmpConfig threads} (hlen : outputValues.length = wordCount 8 n)
    (hwork : ∑ t, (work t : Multiset Nat) = Multiset.range (numFullBytesOf n))
    (hrun : Steps (OmpOp.act (above threshold inputValues)) (ompStart work bits outputValues) c)
    (hdone : c.Done) :
    Packed (above threshold inputValues) n 7
      (ompTail (above threshold inputValues) n (numBytesOf n) (numFullBytesOf n) c.shared) :=
  ompTail_packed hn (parallelLoop_written hn (numFullBytesOf_eq hn ▸ hwork) hrun hdone) hlen

/-- The parallel packer writes the bytes of the sequential one, under every schedule. -/
theorem withOpenMP_eq_notDepentendVersion (threshold : Int) (inputValues : List Int)
    (hn : inputValues.length < 2 ^ 31) {threads : Nat} (work : Fin threads → List Nat)
    (hwork : ∑ t, (work t : Multiset Nat) = Multiset.range (numFullBytesOf inputValues.length))
    (bits : Fin threads → Vector Byte 8) (out₁ out₂ : List Byte)
    (hout₁ : out₁.length = (inputValues.length + 7) / 8)
    (hout₂ : out₂.length = (inputValues.length + 7) / 8) (c : OmpConfig threads)
    (hrun : Steps (OmpOp.act (above threshold inputValues)) (ompStart work bits out₁) c) (hdone : c.Done) :
    (ompTail (above threshold inputValues) inputValues.length (numBytesOf inputValues.length)
        (numFullBytesOf inputValues.length) c.shared).out
      = (notDepentendVersion threshold inputValues.length inputValues out₂).out :=
  (withOpenMP_packed threshold inputValues hn hout₁ hwork hrun hdone).out.trans
    (notDepentendVersion_packed threshold inputValues hout₂).out.symm

/-- Two threads, each of which has begun its iteration when the other goes on. -/
theorem withOpenMP_eq_notDepentendVersion_eighteen :
    let inputValues := [200, 3, 128, 127, 0, 1, 2, 3, 255, 129, 130, 131, 4, 5, 6, 250, 90, 201]
    let start : OmpConfig 2 := ompStart ![[1], [0]] (fun _ => Vector.replicate 8 0xAA) [0xFF, 0xFF, 0xFF]
    ∃ between c : OmpConfig 2,
      Steps (OmpOp.act (above 127 inputValues)) start between ∧
      (between.pending 0).length = 9 ∧ (between.pending 1).length = 9 ∧
      Steps (OmpOp.act (above 127 inputValues)) between c ∧ c.Done ∧
      (ompTail (above 127 inputValues) 18 3 2 c.shared).out
        = (notDepentendVersion 127 18 inputValues [0, 0, 0]).out := by
  intro inputValues start
  obtain ⟨between, hfirst, hzero, hone⟩ : ∃ between, Steps (OmpOp.act (above 127 inputValues)) start between ∧
      (between.pending 0).length = 9 ∧ (between.pending 1).length = 9 :=
    ⟨_, .tail (.tail .refl (.perform 0 _ _ rfl)) (.perform 1 _ _ rfl), rfl, rfl⟩
  obtain ⟨c, hrest, hdone⟩ := exists_done (OmpOp.act (above 127 inputValues)) between
  have hout := withOpenMP_eq_notDepentendVersion 127
    [200, 3, 128, 127, 0, 1, 2, 3, 255, 129, 130, 131, 4, 5, 6, 250, 90, 201] (by decide)
    ![[1], [0]] (by decide) _ _ [0, 0, 0] rfl rfl c (hfirst.trans hrest) hdone
  exact ⟨between, c, hfirst, hzero, hone, hrest, hdone, hout⟩

/-! ### The loop in sequential order -/

/-- `WithOpenMP` with a single thread that runs the iterations in order, its `Bits` holding `bits`. -/
def withOpenMP (threshold : Int) (arrayLength numBytes numFullBytes : Nat) (inputValues : List Int)
    (bits : Vector Byte 8) (outputValues : List Byte) : Mem :=
  ompTail (above threshold inputValues) arrayLength numBytes numFullBytes
    (runOps (OmpOp.act (above threshold inputValues)) ((List.range numFullBytes).flatMap ompIteration) bits
      ⟨outputValues, []⟩).2

theorem withOpenMP_sequential_packed (threshold : Int) (inputValues : List Int) {n : Nat} (hn : n < 2 ^ 31)
    (bits : Vector Byte 8) {outputValues : List Byte} (hlen : outputValues.length = wordCount 8 n) :
    Packed (above threshold inputValues) n 7
      (withOpenMP threshold n (numBytesOf n) (numFullBytesOf n) inputValues bits outputValues) := by
  have hrun := steps_thread (OmpOp.act (above threshold inputValues)) (0 : Fin 1)
    (ompStart (fun _ => List.range (numFullBytesOf n)) (fun _ => bits) outputValues) rfl
  have hwork : ∑ _t : Fin 1, (List.range (numFullBytesOf n) : Multiset Nat)
      = Multiset.range (numFullBytesOf n) := by
    rw [Fin.sum_univ_one]
    rfl
  have hpacked := withOpenMP_packed threshold inputValues hn hlen hwork hrun fun t => by
    rw [Subsingleton.elim t 0]
    simp only [Function.update_self]
  exact hpacked

end BenchmarkLibs

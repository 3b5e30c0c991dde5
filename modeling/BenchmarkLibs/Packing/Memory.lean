import BenchmarkLibs.Base.BitPacking
import BenchmarkLibs.Base.Loop
import BenchmarkLibs.Base.Overwrite

/-!
# The memory a packing body works on

The bodies of `celeroCompressBools.cpp` read an array of integers, keep a small array `Bits` of partial
results and write bytes. Here an access does two things: it has the effect the C++ access has, where
narrowing keeps the low bits and unsigned arithmetic wraps, and it leaves an event in a log. An access
outside an array has no meaning in C++; the model gives it a harmless one, and the event in the log tells
that it happened.

Sizes and counters of the types `size_t` and `int64_t` are natural numbers: no array of `int` has more
elements than either type can count. The types `int` and `unsigned int` have 32 bits, and what is
computed in them is computed by `int32` and `uint32`.
-/

namespace BenchmarkLibs

open BitPacking Overwrite

abbrev Byte := BitVec 8

def thresholdValue : Int := 127

def maxDist : Int := 255

/-- The value an `int` holds after a computation with the exact result `x`. -/
def int32 (x : Int) : Int := x.bmod (2 ^ 32)

/-- The value an `unsigned int` holds after a computation with the exact result `x`. -/
def uint32 (x : Nat) : Nat := x % 2 ^ 32

theorem int32_of_lt {x : Nat} (hx : x < 2 ^ 31) : int32 x = x := by
  rw [int32, Int.bmod_eq_of_le (by omega) (by omega)]

theorem uint32_of_lt {x : Nat} (hx : x < 2 ^ 32) : uint32 x = x := Nat.mod_eq_of_lt hx

/-! ### Events -/

inductive Event
  /-- A read of an element of the input. -/
  | readInput (index : Nat)
  /-- A store of `width` bytes into the output. -/
  | writeOutput (offset width : Nat)
  /-- An access to an entry of an array `Bits` of `size` entries. -/
  | indexBits (index size : Nat)
  /-- A shift by `count`. -/
  | shift (count : Nat)
  /-- A value stored into an unsigned type of `width` bits. -/
  | narrow (value width : Nat)
  /-- A computation in `int` or `unsigned int`: its exact result and the result of the machine. -/
  | arith (exact machine : Int)
  deriving DecidableEq, Repr

/-- The access is inside its array and aligned, the shift is short enough, no bit is lost and no number
differs from what it is over the integers. -/
def Event.Safe (n numBytes maxShift : Nat) : Event → Prop
  | .readInput index => index < n
  | .writeOutput offset width => offset + width ≤ numBytes ∧ width ∣ offset
  | .indexBits index size => index < size
  | .shift count => count ≤ maxShift
  | .narrow value width => value < 2 ^ width
  | .arith exact machine => exact = machine

instance (n numBytes maxShift : Nat) (e : Event) : Decidable (e.Safe n numBytes maxShift) := by
  cases e <;> unfold Event.Safe <;> infer_instance

def Event.reads : Event → List Nat
  | .readInput index => [index]
  | _ => []

def Event.writes : Event → List Nat
  | .writeOutput offset width => (List.range width).map (offset + ·)
  | _ => []

/-- The output buffer, and the log of the accesses so far. -/
structure Mem where
  out : List Byte
  log : List Event := []

namespace Mem

def reads (m : Mem) : List Nat := m.log.flatMap Event.reads

def writes (m : Mem) : List Nat := m.log.flatMap Event.writes

def note (m : Mem) (events : List Event) : Mem := { m with log := m.log ++ events }

/-- `p[offset] = value` for a pointer to `uint8_t`. -/
def storeByte (m : Mem) (offset value : Nat) : Mem :=
  { out := m.out.set offset (BitVec.ofNat 8 value)
    log := m.log ++ [.narrow value 8, .writeOutput offset 1] }

/-- `*((uint16_t *)(p + offset)) = value`, least significant byte first. -/
def storeWord (m : Mem) (offset value : Nat) : Mem :=
  let word := BitVec.ofNat 16 value
  { out := (m.out.set offset (word.extractLsb' 0 8)).set (offset + 1) (word.extractLsb' 8 8)
    log := m.log ++ [.narrow value 16, .writeOutput offset 2] }

@[simp] theorem out_storeByte (m : Mem) (offset value : Nat) :
    (m.storeByte offset value).out = m.out.set offset (BitVec.ofNat 8 value) := rfl

end Mem

/-! ### How far a log has come -/

/-- The accesses so far are safe, they read the first `read` elements of the input once each and wrote the
first `written` bytes of the output once each. -/
structure Progress (n maxShift read written : Nat) (m : Mem) : Prop where
  safe : ∀ e ∈ m.log, e.Safe n (wordCount 8 n) maxShift
  reads : m.reads.Perm (List.range read)
  writes : m.writes.Perm (List.range written)

namespace Progress

variable {n maxShift read written : Nat} {m : Mem}

theorem start (out : List Byte) : Progress n maxShift 0 0 ⟨out, []⟩ :=
  ⟨by simp, by simp [Mem.reads], by simp [Mem.writes]⟩

theorem extend (h : Progress n maxShift read written m) (out : List Byte) {events : List Event}
    (moreRead moreWritten : Nat) (hsafe : ∀ e ∈ events, e.Safe n (wordCount 8 n) maxShift)
    (hreads : (events.flatMap Event.reads).Perm ((List.range moreRead).map (read + ·)))
    (hwrites : (events.flatMap Event.writes).Perm ((List.range moreWritten).map (written + ·))) :
    Progress n maxShift (read + moreRead) (written + moreWritten) ⟨out, m.log ++ events⟩ where
  safe e he := (List.mem_append.mp he).elim (h.safe e) (hsafe e)
  reads := by
    rw [Mem.reads, List.flatMap_append, List.range_add]
    exact h.reads.append hreads
  writes := by
    rw [Mem.writes, List.flatMap_append, List.range_add]
    exact h.writes.append hwrites

theorem note (h : Progress n maxShift read written m) {events : List Event}
    (hsafe : ∀ e ∈ events, e.Safe n (wordCount 8 n) maxShift)
    (hreads : events.flatMap Event.reads = []) (hwrites : events.flatMap Event.writes = []) :
    Progress n maxShift read written (m.note events) := by
  simpa [Mem.note] using h.extend m.out 0 0 hsafe (by simp [hreads]) (by simp [hwrites])

theorem noteRead (h : Progress n maxShift read written m) {events : List Event}
    (hsafe : ∀ e ∈ events, e.Safe n (wordCount 8 n) maxShift)
    (hreads : events.flatMap Event.reads = [read]) (hwrites : events.flatMap Event.writes = []) :
    Progress n maxShift (read + 1) written (m.note events) := by
  simpa [Mem.note] using h.extend m.out 1 0 hsafe (by simp [hreads]) (by simp [hwrites])

theorem storeByte (h : Progress n maxShift read written m) {value : Nat}
    (hwritten : written < wordCount 8 n) (hvalue : value < 2 ^ 8) :
    Progress n maxShift read (written + 1) (m.storeByte written value) := by
  have hsafe : ∀ e ∈ [Event.narrow value 8, .writeOutput written 1],
      e.Safe n (wordCount 8 n) maxShift := by
    simp only [List.mem_cons, List.not_mem_nil, or_false, forall_eq_or_imp, forall_eq]
    exact ⟨hvalue, hwritten, Nat.one_dvd _⟩
  simpa [Mem.storeByte] using h.extend (m.storeByte written value).out 0 1 hsafe
    (by simp [Event.reads]) (by simp [Event.writes])

end Progress

/-- The output holds the first `written` bytes of `f` packed, and after them what it held at first. -/
structure Written (f : Nat → Bool) (n maxShift read written : Nat) (init : List Byte) (m : Mem) : Prop
    extends Progress n maxShift read written m where
  out : m.out = overwrite (packedWord 8 f n) (Finset.range written) init

/-- A body has packed `f`: the output holds the `n` values of `f` with zero padding, and the accesses that
put them there were safe, read every element once and wrote every byte once. -/
structure Packed (f : Nat → Bool) (n maxShift : Nat) (m : Mem) : Prop extends
    Progress n maxShift n (wordCount 8 n) m where
  out : m.out = pack 8 f n

theorem Packed.congr {f g : Nat → Bool} {n maxShift : Nat} {m : Mem} (h : Packed f n maxShift m)
    (hfg : ∀ i, i < n → f i = g i) : Packed g n maxShift m :=
  ⟨h.toProgress, h.out.trans (pack_congr hfg)⟩

namespace Written

variable {f : Nat → Bool} {n maxShift read written : Nat} {init : List Byte} {m : Mem}

theorem start (f : Nat → Bool) (out : List Byte) : Written f n maxShift 0 0 out ⟨out, []⟩ :=
  ⟨.start out, (overwrite_empty _ out).symm⟩

theorem of_out (h : Written f n maxShift read written init m) {m' : Mem} {read' : Nat}
    (hprogress : Progress n maxShift read' written m') (hout : m'.out = m.out) :
    Written f n maxShift read' written init m' :=
  ⟨hprogress, hout.trans h.out⟩

theorem storeByte (h : Written f n maxShift read written init m) {value : Nat}
    (hwritten : written < wordCount 8 n) (hvalue : value < 2 ^ 8)
    (hbyte : BitVec.ofNat 8 value = packedWord 8 f n written) :
    Written f n maxShift read (written + 1) init (m.storeByte written value) := by
  refine ⟨h.toProgress.storeByte hwritten hvalue, ?_⟩
  rw [Mem.out_storeByte, h.out, hbyte, set_overwrite_range]

theorem storeWord (h : Written f n maxShift read written init m) {value : Nat} (heven : 2 ∣ written)
    (hfull : 8 * (written + 2) ≤ n) (hvalue : value < 2 ^ 16)
    (hbits : ∀ j, j < 16 → value.testBit j = f (8 * written + j)) :
    Written f n maxShift read (written + 2) init (m.storeWord written value) := by
  have hcount : written + 2 ≤ wordCount 8 n := (lt_wordCount (by decide)).mpr (by omega)
  have hhalf : ∀ half, half < 2 → (BitVec.ofNat 16 value).extractLsb' (8 * half) 8
      = packedWord 8 f n (written + half) := by
    intro half hhalf
    rw [packedWord_full f (by omega)]
    apply BitVec.eq_of_getLsbD_eq
    intro j hj
    rw [BitVec.getLsbD_extractLsb', BitVec.getLsbD_ofNat, getLsbD_packWord, hbits _ (by omega),
      decide_eq_true (by omega : 8 * half + j < 16), Bool.true_and, Nat.mul_add, Nat.add_assoc]
  refine ⟨?_, ?_⟩
  · have hsafe : ∀ e ∈ [Event.narrow value 16, .writeOutput written 2], e.Safe n (wordCount 8 n) maxShift := by
      simp only [List.mem_cons, List.not_mem_nil, or_false, forall_eq_or_imp, forall_eq]
      exact ⟨hvalue, hcount, heven⟩
    simpa [Mem.storeWord] using h.toProgress.extend (m.storeWord written value).out 0 2 hsafe
      (by simp [Event.reads]) (by simp [Event.writes])
  · change (m.out.set written _).set (written + 1) _ = _
    rw [h.out, show (BitVec.ofNat 16 value).extractLsb' 0 8 = packedWord 8 f n written from hhalf 0 (by decide),
      show (BitVec.ofNat 16 value).extractLsb' 8 8 = packedWord 8 f n (written + 1) from hhalf 1 (by decide),
      set_overwrite_range, set_overwrite_range]

theorem packed (h : Written f n maxShift n (wordCount 8 n) init m) (hlen : init.length = wordCount 8 n) :
    Packed f n maxShift m := by
  refine ⟨h.toProgress, ?_⟩
  rw [h.out, overwrite_full _ (fun b hb => Finset.mem_range.mpr (hlen ▸ hb)), hlen, pack]

end Written

/-! ### The array `Bits` -/

def above (threshold : Int) (inputValues : List Int) (index : Nat) : Bool :=
  inputValues.getD index 0 > threshold

abbrev Scratch (w k : Nat) := Vector (BitVec w) k × Mem

/-- `Bits[j] = pInputData[…] > threshold ? mask : 0`, reading the element at `index`. -/
def assignBit {w k : Nat} (above : Nat → Bool) (index j mask : Nat) (s : Scratch w k) : Scratch w k :=
  let value := if above index then mask else 0
  (s.1.setIfInBounds j (BitVec.ofNat w value),
    s.2.note [.readInput index, .narrow value w, .indexBits j k])

/-- The entries of `Bits` that a full block assigns, with their masks. -/
def blockMasks : List (Nat × Nat) :=
  [(0, 0x01), (1, 0x02), (2, 0x04), (3, 0x08), (4, 0x10), (5, 0x20), (6, 0x40), (7, 0x80)]

/-- `Bits[0] = pInputData[0] > threshold ? 0x01 : 0;` and so on to `Bits[7]`. -/
def assignBlock (above : Nat → Bool) (pInputData : Nat) (s : Scratch 8 8) : Scratch 8 8 :=
  blockMasks.foldl (fun s entry => assignBit above (pInputData + entry.1) entry.1 entry.2 s) s

/-- `pOutputByte[…] = Bits[…] | … | Bits[…]`, over the entries `indices`. -/
def storeBits {w k : Nat} (indices : List Nat) (offset : Nat) (s : Scratch w k) : Mem :=
  (s.2.note (indices.map fun j => .indexBits j k)).storeByte offset (orEntries s.1 indices)

structure TailState (w k : Nat) where
  bits : Vector (BitVec w) k
  pInputData : Nat
  mem : Mem

/-- `Bits[i] = *pInputData > threshold ? 1 << i : 0; pInputData++;` -/
def tailStep {w k : Nat} (above : Nat → Bool) (i : Nat) (s : TailState w k) : TailState w k :=
  let value := if above s.pInputData then 1 <<< i else 0
  -- the shift is made in one branch of the conditional only
  let shifted := if above s.pInputData then [Event.shift i] else []
  { bits := s.bits.setIfInBounds i (BitVec.ofNat w value)
    pInputData := s.pInputData + 1
    mem := s.mem.note (.readInput s.pInputData :: shifted ++ [.narrow value w, .indexBits i k]) }

/-- `memset(Bits, 0, …)` and the loop over the last `restW` elements, from `pInputData` on. -/
def tailLoop (w k : Nat) (above : Nat → Bool) (restW pInputData : Nat) (m : Mem) : TailState w k :=
  Counted.forLoop restW 1 (tailStep above) ⟨Vector.replicate k 0, pInputData, m⟩

/-! ### What a block leaves in `Bits` -/

theorem blockMasks_eq : blockMasks = (List.range 8).map fun j => (j, 2 ^ j) := rfl

theorem assignBlock_rule (above : Nat → Bool) (pInputData : Nat) (s : Scratch 8 8)
    (P : Nat → Scratch 8 8 → Prop) (hstart : P 0 s)
    (hassign : ∀ j s, j < 8 → P j s → P (j + 1) (assignBit above (pInputData + j) j (2 ^ j) s)) :
    P 8 (assignBlock above pInputData s) := by
  have hprefix : ∀ count, count ≤ 8 →
      P count ((List.range count).foldl (fun s j => assignBit above (pInputData + j) j (2 ^ j) s) s) := by
    intro count
    induction count with
    | zero => intro _; exact hstart
    | succ count ih =>
      intro hcount
      rw [List.range_succ, List.foldl_append]
      exact hassign count _ hcount (ih (by omega))
  rw [assignBlock, blockMasks_eq, List.foldl_map]
  exact hprefix 8 le_rfl

/-- A block assigns every entry of `Bits`, so nothing of an earlier content is left. -/
theorem assignBlock_masks (f : Nat → Bool) (pInputData : Nat) (s : Scratch 8 8) :
    Masks (fun j => f (pInputData + j)) (assignBlock f pInputData s).1 := by
  have hall := assignBlock_rule f pInputData s
    (fun count s => ∀ j (hj : j < 8), j < count → s.1[j].toNat = maskOf (f (pInputData + j)) j)
    (fun j _ hj => absurd hj (by omega)) (by
      intro i s hi hs j hj hij
      have hvalue : (if f (pInputData + i) then 2 ^ i else 0) = maskOf (f (pInputData + i)) i := rfl
      simp only [assignBit, hvalue, Vector.getElem_setIfInBounds]
      by_cases hji : i = j
      · subst hji
        rw [if_pos rfl, BitVec.toNat_ofNat, Nat.mod_eq_of_lt (maskOf_lt _ hi)]
      · rw [if_neg hji]
        exact hs j hj (by omega))
  exact fun j hj => hall j hj hj

theorem assignBit_safe {n maxShift numBytes : Nat} (f : Nat → Bool) {index j : Nat} (hindex : index < n)
    (hj : j < 8) : ∀ e ∈ [Event.readInput index, .narrow (if f index then 2 ^ j else 0) 8, .indexBits j 8],
      e.Safe n numBytes maxShift := by
  simp only [List.mem_cons, List.not_mem_nil, or_false, forall_eq_or_imp, forall_eq]
  exact ⟨hindex, maskOf_lt (f index) hj, hj⟩

theorem assignBlock_progress (f : Nat → Bool) {n maxShift pInputData written : Nat} {s : Scratch 8 8}
    (h : Progress n maxShift pInputData written s.2) (hn : pInputData + 8 ≤ n) :
    Progress n maxShift (pInputData + 8) written (assignBlock f pInputData s).2 :=
  assignBlock_rule f pInputData s (fun count s => Progress n maxShift (pInputData + count) written s.2) h
    fun _ _ hj hs => hs.noteRead (assignBit_safe f (by omega) hj) rfl rfl

/-! ### What the last elements leave in `Bits` -/

structure TailDone {w k : Nat} (f : Nat → Bool) (n maxShift pInputData written restW : Nat) (m : Mem)
    (s : TailState w k) : Prop where
  bits : Masks (fun j => decide (j < restW) && f (pInputData + j)) s.bits
  pointer : s.pInputData = pInputData + restW
  out : s.mem.out = m.out
  progress : Progress n maxShift (pInputData + restW) written s.mem

theorem tailLoop_done {w k : Nat} (f : Nat → Bool) {n maxShift pInputData written : Nat} (restW : Nat) {m : Mem}
    (h : Progress n maxShift pInputData written m) (hrest : restW ≤ k) (hk : k ≤ w)
    (hshift : restW ≤ maxShift + 1) (hn : pInputData + restW ≤ n) :
    TailDone f n maxShift pInputData written restW m (tailLoop w k f restW pInputData m) := by
  refine Counted.forLoop_one restW _ _ (fun i s => TailDone f n maxShift pInputData written i m s) ?_ ?_
  · exact ⟨fun j hj => by simp [maskOf], rfl, rfl, h⟩
  · intro i s hi hs
    have hvalue : (if f s.pInputData then 1 <<< i else 0) = maskOf (f (pInputData + i)) i := by
      rw [hs.pointer, Nat.shiftLeft_eq, Nat.one_mul]
      rfl
    have hmask : maskOf (f (pInputData + i)) i < 2 ^ w := maskOf_lt _ (by omega)
    refine ⟨fun j hj => ?_, by rw [tailStep, hs.pointer, Nat.add_assoc], hs.out, ?_⟩
    · simp only [tailStep, hvalue, Vector.getElem_setIfInBounds]
      by_cases hij : i = j
      · subst hij
        rw [if_pos rfl, BitVec.toNat_ofNat, Nat.mod_eq_of_lt hmask]
        simp
      · have hlt : decide (j < i) = decide (j < i + 1) := decide_eq_decide.mpr (by omega)
        rw [if_neg hij, hs.bits j hj]
        simp only [hlt]
    · refine hs.progress.noteRead ?_ ?_ ?_
      · intro e he
        simp only [List.mem_cons, List.mem_append, List.not_mem_nil, or_false, List.cons_append] at he
        rcases he with rfl | he | rfl | rfl
        · rw [hs.pointer]
          exact (show pInputData + i < n by omega)
        · split at he
          · rw [List.mem_singleton.mp he]
            exact (show i ≤ maxShift by omega)
          · simp at he
        · rw [hvalue]
          exact hmask
        · exact (show i < k by omega)
      · rw [hs.pointer]
        cases f (pInputData + i) <;> rfl
      · cases f s.pInputData <;> rfl

theorem storeBits_written {w k : Nat} {f : Nat → Bool} {n maxShift read written : Nat} {init : List Byte}
    {indices : List Nat} {s : Scratch w k} (h : Written f n maxShift read written init s.2)
    (hindices : ∀ j ∈ indices, j < k) (hwritten : written < wordCount 8 n)
    (hvalue : orEntries s.1 indices < 2 ^ 8)
    (hbyte : BitVec.ofNat 8 (orEntries s.1 indices) = packedWord 8 f n written) :
    Written f n maxShift read (written + 1) init (storeBits indices written s) := by
  refine Written.storeByte (h.of_out (h.toProgress.note ?_ ?_ ?_) rfl) hwritten hvalue hbyte
  · intro e he
    obtain ⟨j, hj, rfl⟩ := List.mem_map.mp he
    exact hindices j hj
  · simp [List.flatMap_map, Event.reads]
  · simp [List.flatMap_map, Event.writes]

theorem mem_blockEntries {j : Nat} (hj : j < 8) : j ∈ [0, 1, 2, 3, 4, 5, 6, 7] := by
  simp only [List.mem_cons, List.not_mem_nil, or_false]
  omega

theorem ofNat_orEntries_full {f : Nat → Bool} {bits : Vector Byte 8} (h : Masks f bits) :
    BitVec.ofNat 8 (orEntries bits [0, 1, 2, 3, 4, 5, 6, 7]) = packWord 8 f := by
  apply ofNat_eq_packWord
  intro j hj
  rw [h.testBit_orEntries _ (by decide), decide_eq_true (mem_blockEntries hj), Bool.true_and]

theorem ofNat_orEntries_block {f : Nat → Bool} {n b : Nat} {bits : Vector Byte 8}
    (h : Masks (fun j => f (8 * b + j)) bits) (hfull : 8 * (b + 1) ≤ n) :
    BitVec.ofNat 8 (orEntries bits [0, 1, 2, 3, 4, 5, 6, 7]) = packedWord 8 f n b := by
  rw [packedWord_full f hfull, ofNat_orEntries_full h]

/-- The entries of a tail of fewer than eight elements make up the last byte, and the eighth entry is not
needed for it. -/
theorem ofNat_orEntries_tail {f : Nat → Bool} {b restW : Nat} {bits : Vector Byte 8}
    (h : Masks (fun j => decide (j < restW) && f (8 * b + j)) bits) (hrest : restW < 8) :
    BitVec.ofNat 8 (orEntries bits [0, 1, 2, 3, 4, 5, 6]) = packedWord 8 f (8 * b + restW) b := by
  apply ofNat_eq_packWord
  intro j hj
  rw [h.testBit_orEntries _ (by decide)]
  by_cases hj7 : j < restW
  · have hmem : j ∈ [0, 1, 2, 3, 4, 5, 6] := by
      simp only [List.mem_cons, List.not_mem_nil, or_false]; omega
    simp [hmem, hj7]
  · simp [hj7]

/-! ### Counting bytes -/

theorem and_seven (n : Nat) : n &&& 7 = n % 8 := Nat.and_two_pow_sub_one_eq_mod n 3

theorem wordCount_eight (n : Nat) : wordCount 8 n = (n + 7) / 8 := rfl

theorem Written.packed_of_full {f : Nat → Bool} {n maxShift : Nat} {init : List Byte} {m : Mem}
    (h : Written f n maxShift (8 * (n / 8)) (n / 8) init m) (hlen : init.length = wordCount 8 n)
    (hrest : n % 8 = 0) : Packed f n maxShift m := by
  have hcount : n / 8 = wordCount 8 n := by rw [wordCount_eight]; omega
  have hread : 8 * (n / 8) = n := by omega
  rw [hread, hcount] at h
  exact h.packed hlen

theorem Written.packed_of_tail {f : Nat → Bool} {n maxShift : Nat} {init : List Byte} {m : Mem}
    (h : Written f n maxShift (8 * (n / 8)) (n / 8) init m) (hlen : init.length = wordCount 8 n)
    (hrest : n % 8 ≠ 0) (hshift : 6 ≤ maxShift) :
    Packed f n maxShift (storeBits [0, 1, 2, 3, 4, 5, 6] (n / 8)
      ((tailLoop 8 8 f (n % 8) (8 * (n / 8)) m).bits, (tailLoop 8 8 f (n % 8) (8 * (n / 8)) m).mem)) := by
  have hcount : n / 8 + 1 = wordCount 8 n := by rw [wordCount_eight]; omega
  have hread : 8 * (n / 8) + n % 8 = n := Nat.div_add_mod n 8
  have htail := tailLoop_done (w := 8) (k := 8) f (n % 8) h.toProgress (by omega) (by omega)
    (by omega) (by omega)
  have hbyte := ofNat_orEntries_tail htail.bits (by omega)
  have hdone := h.of_out htail.progress htail.out
  rw [hread] at hbyte hdone
  refine Written.packed ?_ hlen
  rw [← hcount]
  exact storeBits_written hdone (by decide) (by omega) (orEntries_lt _ _) hbyte

end BenchmarkLibs

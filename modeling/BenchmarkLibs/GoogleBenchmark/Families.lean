import BenchmarkLibs.Base.Fallible
import BenchmarkLibs.GoogleBenchmark.Threads
import BenchmarkLibs.GoogleBenchmark.Iterations

/-!
# Families of benchmarks

A registered benchmark stands for a family, one instance for each of its arguments and each number of threads.
A family is set up by a chain of calls, whose `CHECK`s end the program; what they let through is always an
instance that can be run (`findBenchmarks_runnable`).
-/

namespace BenchmarkLibs.GoogleBenchmark

open Barrier Fallible

def kint32max : Int := 2 ^ 31 - 1

/-- The condition of a failed `CHECK`, or a signed overflow, or a value that the integer type it is converted to
does not have. -/
inductive BuilderFault
  | check (condition : String)
  | intOverflow
  deriving DecidableEq

def check (condition : Prop) [Decidable condition] (text : String) : Except BuilderFault Unit :=
  if condition then .ok () else .error (.check text)

/-- `i *= mult` -/
def multiply (i mult : Int) : Except BuilderFault Int :=
  if i * mult ≤ kint32max then .ok (i * mult) else .error .intOverflow

/-- The loop of `AddRange`. The fuel is its bound: the counter, never negative, grows in each turn. -/
def rangeLoop (lo hi mult : Int) : Nat → Int → List Int → Except BuilderFault (List Int)
  | 0, _, dst => .ok dst
  | fuel + 1, i, dst =>
    if i < kint32max / mult then
      if hi ≤ i then .ok dst
      else do
        let dst := if lo < i then dst ++ [i] else dst
        let i ← multiply i mult
        rangeLoop lo hi mult fuel i dst
    else .ok dst

def addRange (dst : List Int) (lo hi mult : Int) : Except BuilderFault (List Int) := do
  check (0 ≤ lo) "(lo) >= (0)"
  check (lo ≤ hi) "(hi) >= (lo)"
  let dst ← rangeLoop lo hi mult (kint32max / mult).toNat 1 (dst ++ [lo])
  .ok (if hi ≠ lo then dst ++ [hi] else dst)

def kRangeMultiplier : Int := 8

/-- `BenchmarkImp`, with the function of the `Benchmark` that owns it. -/
structure BenchmarkImp (K : Type) where
  name_ : String
  function : Function K
  arg_count_ : Int
  args_ : List (Int × Int)
  time_unit_ : TimeUnit
  min_time_ : K
  use_real_time_ : Bool
  use_manual_time_ : Bool
  thread_counts_ : List Int

/-- The calls that set up a family; `Apply` makes a sequence of them. -/
inductive Builder (K : Type)
  | arg (x : Int)
  | unit (unit : TimeUnit)
  | range (start limit : Int)
  | denseRange (start limit : Int)
  | argPair (x y : Int)
  | rangePair (lo1 hi1 lo2 hi2 : Int)
  | minTime (t : K)
  | useRealTime
  | useManualTime
  | threads (t : Int)
  | threadRange (min_threads max_threads : Int)
  | threadPerCpu
  | setName (name : String)

variable {K : Type} [Field K] [LinearOrder K]

def BenchmarkImp.create (name : String) (function : Function K) : BenchmarkImp K :=
  ⟨name, function, -1, [], .kNanosecond, 0, false, false, []⟩

/-- Whether the arguments so far, if any, are as many for each instance as now. -/
def BenchmarkImp.checkCount (f : BenchmarkImp K) (count : Int) (text : String) : Except BuilderFault Unit :=
  check (f.arg_count_ = -1 ∨ f.arg_count_ = count) text

def BenchmarkImp.apply (num_cpus : Int) (f : BenchmarkImp K) : Builder K → Except BuilderFault (BenchmarkImp K)
  | .arg x => do
    f.checkCount 1 "arg_count_ == -1 || arg_count_ == 1"
    .ok { f with arg_count_ := 1, args_ := f.args_ ++ [(x, -1)] }
  | .unit unit => .ok { f with time_unit_ := unit }
  | .range start limit => do
    f.checkCount 1 "arg_count_ == -1 || arg_count_ == 1"
    let arglist ← addRange [] start limit kRangeMultiplier
    .ok { f with arg_count_ := 1, args_ := f.args_ ++ arglist.map fun i => (i, -1) }
  | .denseRange start limit => do
    f.checkCount 1 "arg_count_ == -1 || arg_count_ == 1"
    check (0 ≤ start) "(start) >= (0)"
    check (start ≤ limit) "(start) <= (limit)"
    -- with the greatest `int` as its limit the counter passes it
    if limit = kint32max then .error .intOverflow
    else
      let arglist := (List.range (limit - start + 1).toNat).map fun k : Nat => start + (k : Int)
      .ok { f with arg_count_ := 1, args_ := f.args_ ++ arglist.map fun i => (i, -1) }
  | .argPair x y => do
    f.checkCount 2 "arg_count_ == -1 || arg_count_ == 2"
    .ok { f with arg_count_ := 2, args_ := f.args_ ++ [(x, y)] }
  | .rangePair lo1 hi1 lo2 hi2 => do
    f.checkCount 2 "arg_count_ == -1 || arg_count_ == 2"
    let arglist1 ← addRange [] lo1 hi1 kRangeMultiplier
    let arglist2 ← addRange [] lo2 hi2 kRangeMultiplier
    .ok { f with
      arg_count_ := 2
      args_ := f.args_ ++ arglist1.flatMap fun i => arglist2.map fun j => (i, j) }
  | .minTime t => do
    check (0 < t) "t > 0.0"
    .ok { f with min_time_ := t }
  | .useRealTime => do
    check (f.use_manual_time_ = false) "!use_manual_time_"
    .ok { f with use_real_time_ := true }
  | .useManualTime => do
    check (f.use_real_time_ = false) "!use_real_time_"
    .ok { f with use_manual_time_ := true }
  | .threads t => do
    check (0 < t) "(t) > (0)"
    .ok { f with thread_counts_ := f.thread_counts_ ++ [t] }
  | .threadRange min_threads max_threads => do
    check (0 < min_threads) "(min_threads) > (0)"
    check (min_threads ≤ max_threads) "(max_threads) >= (min_threads)"
    let thread_counts ← addRange f.thread_counts_ min_threads max_threads 2
    .ok { f with thread_counts_ := thread_counts }
  | .threadPerCpu => .ok { f with thread_counts_ := f.thread_counts_ ++ [num_cpus] }
  | .setName name => .ok { f with name_ := name }

/-- A family after a chain of calls. -/
def BenchmarkImp.build (num_cpus : Int) (name : String) (function : Function K) (calls : List (Builder K)) :
    Except BuilderFault (BenchmarkImp K) :=
  calls.foldlM (BenchmarkImp.apply num_cpus) (.create name function)

/-- How the parts of an instance's name are printed. -/
structure Format (K : Type) where
  appendHumanReadable : Int → String
  minTime : K → String
  threads : Int → String

/-- The first use of a family without arguments gives it one. -/
def BenchmarkImp.prepare (f : BenchmarkImp K) : BenchmarkImp K :=
  if f.arg_count_ = -1 then { f with arg_count_ := 0, args_ := f.args_ ++ [(-1, -1)] } else f

def BenchmarkImp.instanceOf (f : BenchmarkImp K) (args : Int × Int) (num_threads : Int) : Instance K where
  benchmark := f.function
  has_arg1 := 1 ≤ f.arg_count_
  arg1 := args.1
  has_arg2 := f.arg_count_ = 2
  arg2 := args.2
  time_unit := f.time_unit_
  use_real_time := f.use_real_time_
  use_manual_time := f.use_manual_time_
  min_time := f.min_time_
  threads := num_threads.toNat

def BenchmarkImp.instanceName (format : Format K) (f : BenchmarkImp K) (args : Int × Int) (num_threads : Int) :
    String :=
  f.name_
    ++ (if 1 ≤ f.arg_count_ then format.appendHumanReadable args.1 else "")
    ++ (if 2 ≤ f.arg_count_ then format.appendHumanReadable args.2 else "")
    ++ (if isZero f.min_time_ then "" else format.minTime f.min_time_)
    ++ (if f.use_manual_time_ then "/manual_time" else if f.use_real_time_ then "/real_time" else "")
    ++ (if f.thread_counts_.isEmpty then "" else format.threads num_threads)

/-- The instances of one family whose name the filter accepts. -/
def BenchmarkImp.find (format : Format K) (accepts : String → Bool) (f : BenchmarkImp K) : List (String × Instance K) :=
  f.args_.flatMap fun args =>
    (if f.thread_counts_.isEmpty then [1] else f.thread_counts_).filterMap fun num_threads =>
      let name := f.instanceName format args num_threads
      if accepts name then some (name, f.instanceOf args num_threads) else none

/-- `FindBenchmarks`, with the filter compiled: the families after it, and the instances found. -/
def findBenchmarks (format : Format K) (accepts : String → Bool) (families : List (BenchmarkImp K)) :
    List (BenchmarkImp K) × List (String × Instance K) :=
  let families := families.map BenchmarkImp.prepare
  (families, families.flatMap (BenchmarkImp.find format accepts))

/-! ### Ranges -/

theorem check_of {condition : Prop} [Decidable condition] (h : condition) (text : String) :
    check condition text = .ok () := if_pos h

theorem check_not {condition : Prop} [Decidable condition] (h : ¬condition) (text : String) :
    check condition text = .error (.check text) := if_neg h

/-- Below the bound of the loop a multiplication cannot overflow. -/
theorem multiply_eq {i mult : Int} (hmult : 0 < mult) (hi : i < kint32max / mult) :
    multiply i mult = .ok (i * mult) := by
  refine if_pos ?_
  have hle := Int.mul_le_mul_of_nonneg_right hi.le hmult.le
  exact hle.trans (Int.ediv_mul_le kint32max hmult.ne')

/-- The values that the loop adds from `mult ^ k` on. -/
theorem rangeLoop_eq (lo hi : Int) {mult : Int} (hmult : 2 ≤ mult) (fuel k : Nat) (dst : List Int)
    (hfuel : kint32max / mult ≤ mult ^ k + fuel) :
    ∃ n : Nat, rangeLoop lo hi mult fuel (mult ^ k) dst =
        .ok (dst ++ ((List.range' k n).map (mult ^ ·)).filter (lo < ·)) ∧
      (∀ j < n, mult ^ (k + j) < kint32max / mult ∧ mult ^ (k + j) < hi) ∧
      ¬(mult ^ (k + n) < kint32max / mult ∧ mult ^ (k + n) < hi) := by
  induction fuel generalizing k dst with
  | zero =>
    refine ⟨0, by simp [rangeLoop], by simp, fun h => ?_⟩
    rw [Nat.add_zero] at h
    omega
  | succ fuel ih =>
    rw [rangeLoop]
    by_cases hbound : mult ^ k < kint32max / mult
    · by_cases hbreak : hi ≤ mult ^ k
      · refine ⟨0, by simp [hbound, hbreak], by simp, fun h => ?_⟩
        rw [Nat.add_zero] at h
        omega
      · have hpos : 0 < mult ^ k := pow_pos (by omega) k
        have hgrow : mult ^ k + 1 ≤ mult ^ (k + 1) := by
          rw [pow_succ]
          nlinarith
        obtain ⟨n, hrun, hbelow, hend⟩ := ih (k + 1) (if lo < mult ^ k then dst ++ [mult ^ k] else dst) (by
          push_cast at hfuel
          omega)
        refine ⟨n + 1, ?_, ?_, ?_⟩
        · rw [if_pos hbound, if_neg hbreak, multiply_eq (by omega) hbound, ← pow_succ, ok_bind, hrun,
            List.range'_succ, List.map_cons, List.filter_cons]
          by_cases hlo : lo < mult ^ k
          · simp [hlo]
          · simp [hlo]
        · intro j hj
          rcases j with _ | j
          · exact ⟨hbound, not_le.mp hbreak⟩
          · rw [← Nat.add_assoc, Nat.add_right_comm]
            exact hbelow j (by omega)
        · rw [← Nat.add_assoc, Nat.add_right_comm]
          exact hend
    · refine ⟨0, by simp [hbound], by simp, fun h => ?_⟩
      rw [Nat.add_zero] at h
      exact hbound h.1

/-- `AddRange` never overflows. It adds, in increasing order and without repetition, both ends and the powers of
the multiplier strictly between them, as far as these are below `kint32max / mult`; where the ends are not as
`CHECK`ed it fails. -/
theorem addRange_spec (dst : List Int) (lo hi mult : Int) (hmult : 2 ≤ mult) :
    (0 ≤ lo ∧ lo ≤ hi → ∃ l, addRange dst lo hi mult = .ok (dst ++ l) ∧ l.Pairwise (· < ·) ∧
      ∀ x, x ∈ l ↔ x = lo ∨ x = hi ∨
        lo < x ∧ x < hi ∧ x < kint32max / mult ∧ ∃ k : Nat, x = mult ^ k) ∧
      (¬(0 ≤ lo ∧ lo ≤ hi) → ∃ text, addRange dst lo hi mult = .error (.check text)) := by
  have hmono : StrictMono fun k : Nat => mult ^ k := pow_right_strictMono₀ (by omega)
  constructor
  · rintro ⟨hlo, hle⟩
    obtain ⟨n, hrun, hbelow, hend⟩ := rangeLoop_eq lo hi hmult (kint32max / mult).toNat 0
      (dst ++ [lo]) (by rw [pow_zero]; omega)
    rw [pow_zero] at hrun
    simp only [Nat.zero_add] at hbelow hend
    obtain ⟨powers, hpowers⟩ : ∃ powers, powers = ((List.range' 0 n).map (mult ^ ·)).filter (lo < ·) := ⟨_, rfl⟩
    rw [← hpowers] at hrun
    have hmem : ∀ x, x ∈ powers ↔ lo < x ∧ x < hi ∧ x < kint32max / mult ∧ ∃ k : Nat, x = mult ^ k := by
      intro x
      rw [hpowers, List.mem_filter, List.mem_map, decide_eq_true_iff]
      constructor
      · rintro ⟨⟨k, hk, rfl⟩, hlt⟩
        have hk' : k < n := by
          rw [List.mem_range'_1] at hk
          omega
        exact ⟨hlt, (hbelow k hk').2, (hbelow k hk').1, k, rfl⟩
      · rintro ⟨hlt, hhi, hmax, k, rfl⟩
        refine ⟨⟨k, ?_, rfl⟩, hlt⟩
        rw [List.mem_range'_1]
        by_contra hge
        have hpow : mult ^ n ≤ mult ^ k := hmono.monotone (by omega)
        exact hend ⟨by omega, by omega⟩
    have hsorted : powers.Pairwise (· < ·) := by
      rw [hpowers]
      refine List.Pairwise.filter _ (List.pairwise_map.mpr ?_)
      exact (List.pairwise_lt_range' 1).imp fun hjk => hmono hjk
    have hadd : addRange dst lo hi mult = .ok (if hi ≠ lo then dst ++ [lo] ++ powers ++ [hi]
        else dst ++ [lo] ++ powers) := by
      rw [addRange, check_of hlo, ok_bind, check_of hle, ok_bind, hrun, ok_bind]
    by_cases heq : hi = lo
    · refine ⟨lo :: powers, ?_, List.pairwise_cons.mpr ⟨fun x hx => ((hmem x).mp hx).1, hsorted⟩, fun x => ?_⟩
      · rw [hadd, if_neg (not_not.mpr heq), List.append_assoc, List.singleton_append]
      · rw [List.mem_cons, hmem, heq, or_self_left]
    · refine ⟨lo :: powers ++ [hi], ?_, ?_, fun x => ?_⟩
      · rw [hadd, if_pos heq, List.cons_append, List.append_assoc dst, List.append_assoc dst]
        rfl
      · rw [List.cons_append, List.pairwise_cons, List.pairwise_append]
        refine ⟨fun x hx => ?_, hsorted, List.pairwise_singleton _ _, fun x hx y hy => ?_⟩
        · rcases List.mem_append.mp hx with hx | hx
          · exact ((hmem x).mp hx).1
          · rw [List.mem_singleton.mp hx]
            omega
        · rw [List.mem_singleton.mp hy]
          exact ((hmem x).mp hx).2.1
      · rw [List.cons_append, List.mem_cons, List.mem_append, hmem, List.mem_singleton]
        tauto
  · intro hnot
    by_cases hlo : 0 ≤ lo
    · refine ⟨"(hi) >= (lo)", ?_⟩
      rw [addRange, check_of hlo, ok_bind, check_not fun hle => hnot ⟨hlo, hle⟩, error_bind]
    · refine ⟨"(lo) >= (0)", ?_⟩
      rw [addRange, check_not hlo, error_bind]

theorem addRange_spec_eight :
    ∃ l, addRange [1] 8 2000 8 = .ok ([1] ++ l) ∧ l.Pairwise (· < ·) ∧ 512 ∈ l ∧ 4096 ∉ l := by
  obtain ⟨l, hrun, hsorted, hmem⟩ := (addRange_spec [1] 8 2000 8 (by decide)).1 (by decide)
  refine ⟨l, hrun, hsorted, ?_, ?_⟩
  · exact (hmem 512).mpr (Or.inr (Or.inr ⟨by decide, by decide, by decide, 3, by decide⟩))
  · intro h
    rcases (hmem 4096).mp h with hlo | hhi | ⟨-, hlt, -⟩
    · omega
    · omega
    · omega

/-! ### Families -/

/-- What the `CHECK`s keep true of a family. -/
structure BenchmarkImp.Valid (f : BenchmarkImp K) : Prop where
  args : f.arg_count_ = -1 ∧ f.args_ = [] ∨
    f.arg_count_ = 1 ∧ f.args_ ≠ [] ∧ (∀ args ∈ f.args_, args.2 = -1) ∨
    f.arg_count_ = 2 ∧ f.args_ ≠ []
  thread_counts : ∀ t ∈ f.thread_counts_, 0 < t
  timing : ¬(f.use_real_time_ = true ∧ f.use_manual_time_ = true)
  min_time : 0 ≤ f.min_time_

theorem check_eq_ok {condition : Prop} [Decidable condition] {text : String} {u : Unit} :
    check condition text = .ok u ↔ condition := by
  unfold check
  split <;> simp [*]

theorem addRange_ok {dst l : List Int} {lo hi mult : Int} (hmult : 2 ≤ mult) (h : addRange dst lo hi mult = .ok l) :
    ∃ added, l = dst ++ added ∧ lo ∈ added ∧ ∀ x ∈ added, lo ≤ x := by
  obtain ⟨hok, herror⟩ := addRange_spec dst lo hi mult hmult
  by_cases hends : 0 ≤ lo ∧ lo ≤ hi
  · obtain ⟨added, hadded, -, hmem⟩ := hok hends
    rw [h] at hadded
    cases hadded
    refine ⟨added, rfl, (hmem lo).mpr (Or.inl rfl), fun x hx => ?_⟩
    rcases (hmem x).mp hx with rfl | rfl | hbetween
    · exact le_rfl
    · exact hends.2
    · exact hbetween.1.le
  · obtain ⟨text, htext⟩ := herror hends
    rw [h] at htext
    cases htext

/-- Arguments added to a family that has as many for each instance, or none yet. -/
theorem BenchmarkImp.Valid.addArgs {f : BenchmarkImp K} (h : f.Valid) {count : Int} {text : String} {u : Unit}
    (hcount : count = 1 ∨ count = 2) (hcheck : f.checkCount count text = .ok u) {added : List (Int × Int)}
    (hne : added ≠ []) (hadded : count = 1 → ∀ args ∈ added, args.2 = -1) :
    ({ f with arg_count_ := count, args_ := f.args_ ++ added } : BenchmarkImp K).Valid := by
  refine ⟨?_, h.thread_counts, h.timing, h.min_time⟩
  have hne' : f.args_ ++ added ≠ [] := by simp [hne]
  rcases hcount with rfl | rfl
  · refine Or.inr (Or.inl ⟨rfl, hne', fun args hargs => ?_⟩)
    rcases List.mem_append.mp hargs with hargs | hargs
    · rcases h.args with ⟨-, hnil⟩ | ⟨-, -, hall⟩ | ⟨htwo, -⟩
      · simp [hnil] at hargs
      · exact hall args hargs
      · rcases check_eq_ok.mp hcheck with hcase | hcase
        · omega
        · omega
    · exact hadded rfl args hargs
  · exact Or.inr (Or.inr ⟨rfl, hne'⟩)

theorem BenchmarkImp.Valid.apply {num_cpus : Int} (hcpus : 0 < num_cpus) {f f' : BenchmarkImp K} (h : f.Valid)
    {call : Builder K} (hrun : f.apply num_cpus call = .ok f') : f'.Valid := by
  cases call with
  | arg x =>
    obtain ⟨u, hcheck, hok⟩ := bind_eq_ok.mp hrun
    cases hok
    exact h.addArgs (Or.inl rfl) hcheck (by simp) (by simp)
  | range start limit =>
    obtain ⟨u, hcheck, hrun⟩ := bind_eq_ok.mp hrun
    obtain ⟨arglist, hrange, hok⟩ := bind_eq_ok.mp hrun
    cases hok
    obtain ⟨added, rfl, hlo, -⟩ := addRange_ok (by decide) hrange
    refine h.addArgs (Or.inl rfl) hcheck ?_ ?_
    · simp [List.ne_nil_of_mem hlo]
    · simp
  | denseRange start limit =>
    obtain ⟨u, hcheck, hrun⟩ := bind_eq_ok.mp hrun
    obtain ⟨v, -, hrun⟩ := bind_eq_ok.mp hrun
    obtain ⟨w, hle, hrun⟩ := bind_eq_ok.mp hrun
    have hle' := check_eq_ok.mp hle
    split at hrun
    · cases hrun
    · cases hrun
      refine h.addArgs (Or.inl rfl) hcheck ?_ ?_
      · have hpos : (limit - start + 1).toNat ≠ 0 := by omega
        simp [hpos]
      · simp
  | argPair x y =>
    obtain ⟨u, hcheck, hok⟩ := bind_eq_ok.mp hrun
    cases hok
    exact h.addArgs (Or.inr rfl) hcheck (by simp) (by simp)
  | rangePair lo1 hi1 lo2 hi2 =>
    obtain ⟨u, hcheck, hrun⟩ := bind_eq_ok.mp hrun
    obtain ⟨arglist1, hrange1, hrun⟩ := bind_eq_ok.mp hrun
    obtain ⟨arglist2, hrange2, hok⟩ := bind_eq_ok.mp hrun
    cases hok
    obtain ⟨added1, rfl, hlo1, -⟩ := addRange_ok (by decide) hrange1
    obtain ⟨added2, rfl, hlo2, -⟩ := addRange_ok (by decide) hrange2
    refine h.addArgs (Or.inr rfl) hcheck ?_ (by simp)
    exact List.ne_nil_of_mem (List.mem_flatMap.mpr ⟨lo1, hlo1, List.mem_map_of_mem hlo2⟩)
  | minTime t =>
    obtain ⟨u, hcheck, hok⟩ := bind_eq_ok.mp hrun
    cases hok
    exact ⟨h.args, h.thread_counts, h.timing, (check_eq_ok.mp hcheck).le⟩
  | useRealTime =>
    obtain ⟨u, hcheck, hok⟩ := bind_eq_ok.mp hrun
    cases hok
    exact ⟨h.args, h.thread_counts, by simp [check_eq_ok.mp hcheck], h.min_time⟩
  | useManualTime =>
    obtain ⟨u, hcheck, hok⟩ := bind_eq_ok.mp hrun
    cases hok
    exact ⟨h.args, h.thread_counts, by simp [check_eq_ok.mp hcheck], h.min_time⟩
  | threads t =>
    obtain ⟨u, hcheck, hok⟩ := bind_eq_ok.mp hrun
    cases hok
    refine ⟨h.args, fun t' ht' => ?_, h.timing, h.min_time⟩
    rcases List.mem_append.mp ht' with ht' | ht'
    · exact h.thread_counts t' ht'
    · rw [List.mem_singleton.mp ht']
      exact check_eq_ok.mp hcheck
  | threadRange min_threads max_threads =>
    obtain ⟨u, hmin, hrun⟩ := bind_eq_ok.mp hrun
    obtain ⟨v, -, hrun⟩ := bind_eq_ok.mp hrun
    obtain ⟨thread_counts, hrange, hok⟩ := bind_eq_ok.mp hrun
    cases hok
    obtain ⟨added, rfl, -, hge⟩ := addRange_ok (by decide) hrange
    refine ⟨h.args, fun t ht => ?_, h.timing, h.min_time⟩
    rcases List.mem_append.mp ht with ht | ht
    · exact h.thread_counts t ht
    · exact (check_eq_ok.mp hmin).trans_le (hge t ht)
  | threadPerCpu =>
    cases hrun
    refine ⟨h.args, fun t ht => ?_, h.timing, h.min_time⟩
    rcases List.mem_append.mp ht with ht | ht
    · exact h.thread_counts t ht
    · rw [List.mem_singleton.mp ht]
      exact hcpus
  | unit unit =>
    cases hrun
    exact ⟨h.args, h.thread_counts, h.timing, h.min_time⟩
  | setName name =>
    cases hrun
    exact ⟨h.args, h.thread_counts, h.timing, h.min_time⟩

theorem build_valid {num_cpus : Int} (hcpus : 0 < num_cpus) {name : String} {function : Function K}
    {calls : List (Builder K)} {f : BenchmarkImp K} (hrun : BenchmarkImp.build num_cpus name function calls = .ok f) :
    f.Valid := by
  refine foldlM_preserves (P := BenchmarkImp.Valid) (fun call _ f f' hcall hf => hf.apply hcpus hcall) hrun ?_
  exact ⟨Or.inl ⟨rfl, rfl⟩, by simp [BenchmarkImp.create], by simp [BenchmarkImp.create], le_rfl⟩

/-- What is asked of an instance that is run. -/
structure Instance.Valid (b : Instance K) : Prop where
  threads : 0 < b.threads
  args : b.has_arg2 = true → b.has_arg1 = true
  arg2 : b.has_arg2 = false → b.arg2 = -1
  timing : ¬(b.use_real_time = true ∧ b.use_manual_time = true)
  min_time : 0 ≤ b.min_time

theorem instanceOf_valid {f : BenchmarkImp K} (h : f.Valid) {args : Int × Int} (hargs : args ∈ f.prepare.args_)
    {num_threads : Int} (hthreads : 0 < num_threads) : (f.prepare.instanceOf args num_threads).Valid := by
  have hsame : f.prepare.use_real_time_ = f.use_real_time_ ∧ f.prepare.use_manual_time_ = f.use_manual_time_ ∧
      f.prepare.min_time_ = f.min_time_ := by
    unfold BenchmarkImp.prepare
    split <;> exact ⟨rfl, rfl, rfl⟩
  refine ⟨?_, ?_, ?_, ?_, ?_⟩
  · simp only [BenchmarkImp.instanceOf]
    omega
  · simp only [BenchmarkImp.instanceOf, decide_eq_true_eq]
    omega
  · simp only [BenchmarkImp.instanceOf, decide_eq_false_iff_not]
    intro hcount
    rcases h.args with ⟨hnone, hnil⟩ | ⟨hone, -, hall⟩ | ⟨htwo, -⟩
    · simp only [BenchmarkImp.prepare, hnone, if_true, hnil, List.nil_append, List.mem_singleton] at hargs
      rw [hargs]
    · have hprepare : f.prepare = f := if_neg (by omega)
      rw [hprepare] at hargs
      exact hall args hargs
    · have hprepare : f.prepare = f := if_neg (by omega)
      rw [hprepare] at hcount
      exact absurd htwo hcount
  · simp only [BenchmarkImp.instanceOf, hsame]
    exact h.timing
  · simp only [BenchmarkImp.instanceOf, hsame]
    exact h.min_time

omit [Field K] [LinearOrder K] in
theorem prepare_prepare (f : BenchmarkImp K) : f.prepare.prepare = f.prepare := by
  by_cases hnone : f.arg_count_ = -1
  · simp [BenchmarkImp.prepare, hnone]
  · simp [BenchmarkImp.prepare, hnone]

/-- **Every instance found can be run.** Whatever families are set up, by whatever calls, as long as no `CHECK`
fails: an instance that `FindBenchmarks` selects has its arguments and its timing in order, and if its function
keeps its contract, then under no schedule of its threads does a `CHECK` fail, and every run ends with
`RunBenchmark` notified. Finding the instances does not change what is found later. -/
theorem findBenchmarks_runnable {num_cpus : Int} (hcpus : 0 < num_cpus)
    (format : Format K) (accepts : String → Bool) {families : List (BenchmarkImp K)}
    (hfamilies : ∀ f ∈ families, ∃ name function calls, BenchmarkImp.build num_cpus name function calls = .ok f) :
    (∀ name b, (name, b) ∈ (findBenchmarks format accepts families).2 → accepts name = true ∧ b.Valid ∧
      ∀ iters clocks spurious c, iters ≠ 0 → b.Keeps iters → Reached b iters clocks spurious c → c.failure = none ∧
        ∃ c', Steps (effect b.threads clocks) maxPhaseNumber Call.throughBarrier spurious c c' ∧ c'.Done ∧
          c'.data.notified_yet_ = true) ∧
      findBenchmarks format accepts (findBenchmarks format accepts families).1 =
        findBenchmarks format accepts families := by
  constructor
  · intro name b hmem
    obtain ⟨f, hf, hmem⟩ := List.mem_flatMap.mp hmem
    obtain ⟨family, hfamily, rfl⟩ := List.mem_map.mp hf
    obtain ⟨args, hargs, hmem⟩ := List.mem_flatMap.mp hmem
    obtain ⟨num_threads, hthreads, hmem⟩ := List.mem_filterMap.mp hmem
    obtain ⟨familyName, function, calls, hbuild⟩ := hfamilies family hfamily
    have hvalid := build_valid hcpus hbuild
    have hcounts : family.prepare.thread_counts_ = family.thread_counts_ := by
      unfold BenchmarkImp.prepare
      split <;> rfl
    have hpos : 0 < num_threads := by
      rw [hcounts] at hthreads
      split at hthreads
      · rw [List.mem_singleton.mp hthreads]
        decide
      · exact hvalid.thread_counts num_threads hthreads
    simp only [Option.ite_none_right_eq_some, Option.some.injEq, Prod.mk.injEq] at hmem
    obtain ⟨haccepts, rfl, rfl⟩ := hmem
    have hinstance := instanceOf_valid hvalid hargs hpos
    refine ⟨haccepts, hinstance, fun iters clocks spurious c hiters hkeeps hrun => ?_⟩
    exact ⟨(hrun.inPhase hinstance.threads hiters hkeeps).good, hrun.completes hinstance.threads hiters hkeeps⟩
  · simp only [findBenchmarks, List.map_map, Function.comp_def, prepare_prepare]

theorem findBenchmarks_runnable_two :
    ∃ f, BenchmarkImp.build 4 "Update" preparing [.range 8 4096, .threadRange 1 2, .useManualTime] = .ok f ∧
      (findBenchmarks ⟨toString, fun _ => "", toString⟩ (fun _ => true) [f]).2.length = 8 ∧
      ∀ name b, (name, b) ∈ (findBenchmarks ⟨toString, fun _ => "", toString⟩ (fun _ => true) [f]).2 → b.Valid ∧
        ∀ c, Reached b 1000 evenClocks true c → c.failure = none := by
  have hbuild : BenchmarkImp.build 4 "Update" preparing [.range 8 4096, .threadRange 1 2, .useManualTime]
      = .ok (⟨"Update", preparing, 1, [(8, -1), (64, -1), (512, -1), (4096, -1)], .kNanosecond, 0, false, true, [1, 2]⟩ :
        BenchmarkImp ℚ) := rfl
  refine ⟨_, hbuild, rfl, fun name b hmem => ?_⟩
  have hcpus : (0 : Int) < 4 := by decide
  obtain ⟨-, hvalid, hruns⟩ := (findBenchmarks_runnable hcpus _ _ (by
    intro f hf
    rw [List.mem_singleton.mp hf]
    exact ⟨_, _, _, hbuild⟩)).1 name b hmem
  have hfunction : b.benchmark = preparing := by
    obtain ⟨f, hf, hmem⟩ := List.mem_flatMap.mp hmem
    rw [List.mem_singleton.mp hf] at hmem
    obtain ⟨args, -, hmem⟩ := List.mem_flatMap.mp hmem
    obtain ⟨num_threads, -, hmem⟩ := List.mem_filterMap.mp hmem
    simp only [if_true, Option.some.injEq, Prod.mk.injEq] at hmem
    rw [← hmem.2]
    rfl
  exact ⟨hvalid, fun c hrun =>
    (hruns 1000 evenClocks true c (by decide) (preparing_keeps hfunction (by decide)) hrun).1⟩

end BenchmarkLibs.GoogleBenchmark

import Mathlib
import BenchmarkLibs.GoogleBenchmark.Threads

/-!
# How many iterations a benchmark is given

`RunBenchmark` tries a benchmark with one iteration and, as long as the try was too short, again with more:
the time measured says how many, within bounds. What a try measures is taken as it comes, as a function
of the number of the try and of its iterations; nothing is assumed of it.
-/

namespace BenchmarkLibs.GoogleBenchmark

variable {K : Type} [Field K] [LinearOrder K] [IsStrictOrderedRing K] [FloorSemiring K]

def kMaxIterations : Nat := 1000000000

/-- What `RunBenchmark` reads after a try. -/
structure Outcome (K : Type) where
  cpu_time_used : K
  real_time_used : K
  manual_time_used : K
  total : ThreadStats
  report_label : List Char

structure Flags (K : Type) where
  benchmark_repetitions : Int
  benchmark_min_time : K

/-- `BenchmarkReporter::Run`, without the name, and without the heap bytes, which nothing reads. -/
structure Report (K : Type) where
  report_label : List Char
  iterations : Int
  time_unit : TimeUnit
  real_accumulated_time : K
  cpu_accumulated_time : K
  bytes_per_second : K
  items_per_second : K

/-- `IsZero`, with the epsilon of `double`. -/
def isZero (n : K) : Prop := |n| < 1 / (2 ^ 52 : Nat)

instance (n : K) : Decidable (isZero n) := inferInstanceAs (Decidable (_ < _))

def Instance.seconds (b : Instance K) (o : Outcome K) : K :=
  if b.use_manual_time then o.manual_time_used
  else if b.use_real_time then o.real_time_used
  else o.cpu_time_used

def Instance.minTime (b : Instance K) (flags : Flags K) : K :=
  if isZero b.min_time then flags.benchmark_min_time else b.min_time

/-- By how much the last try was too short; at most tenfold where it was not a tenth of the time. -/
def expansion (min_time seconds : K) : K :=
  let multiplier := min_time * 1.4 / max seconds 1e-9
  let is_significant := 0.1 < seconds / min_time
  if is_significant then multiplier else min 10 multiplier

def multiplier (min_time seconds : K) : K :=
  if expansion min_time seconds ≤ 1 then (2 : Nat) else expansion min_time seconds

def nextIters (min_time seconds : K) (iters : Nat) : Nat :=
  let next_iters : K := max (multiplier min_time seconds * iters) (iters + 1)
  let next_iters := if (kMaxIterations : K) < next_iters then (kMaxIterations : K) else next_iters
  ⌊next_iters + 0.5⌋₊

/-- The condition under which the repetition `i` reports a try of `iters` iterations. -/
def Instance.enough (b : Instance K) (flags : Flags K) (i iters : Nat) (o : Outcome K) : Prop :=
  0 < i ∨ kMaxIterations ≤ iters ∨ b.minTime flags ≤ b.seconds o ∨ 5 * b.minTime flags ≤ o.real_time_used

instance (b : Instance K) (flags : Flags K) (i iters : Nat) (o : Outcome K) :
    Decidable (b.enough flags i iters o) := inferInstanceAs (Decidable (_ ∨ _))

def Instance.report (b : Instance K) (iters : Nat) (o : Outcome K) : Report K where
  report_label := o.report_label
  iterations := (iters * b.threads : Nat)
  time_unit := b.time_unit
  real_accumulated_time := if b.use_manual_time then o.manual_time_used else o.real_time_used
  cpu_accumulated_time := o.cpu_time_used
  bytes_per_second :=
    if 0 < o.total.bytes_processed.toInt ∧ 0 < b.seconds o then o.total.bytes_processed.toInt / b.seconds o else 0
  items_per_second :=
    if 0 < o.total.items_processed.toInt ∧ 0 < b.seconds o then o.total.items_processed.toInt / b.seconds o else 0

/-! ### One step -/

omit [FloorSemiring K] in
theorem expansion_le (min_time seconds : K) : expansion min_time seconds ≤ 14 := by
  have hpos : (0 : K) < max seconds 1e-9 := lt_max_of_lt_right (by norm_num)
  unfold expansion
  simp only
  split
  · rename_i hsignificant
    rw [div_le_iff₀ hpos]
    rcases le_or_gt min_time 0 with hmin | hmin
    · nlinarith
    · rw [lt_div_iff₀ hmin] at hsignificant
      have hmax := le_max_left seconds (1e-9 : K)
      norm_num at hsignificant ⊢
      linarith
  · exact (min_le_left _ _).trans (by norm_num)

omit [FloorSemiring K] in
theorem expansion_ge {min_time seconds : K} (hmin : 1e-9 ≤ min_time) (hshort : seconds < min_time) :
    1.4 ≤ expansion min_time seconds := by
  have hpos : (0 : K) < max seconds 1e-9 := lt_max_of_lt_right (by norm_num)
  have hratio : 1.4 ≤ min_time * 1.4 / max seconds 1e-9 := by
    rw [le_div_iff₀ hpos, mul_comm]
    exact mul_le_mul_of_nonneg_right (max_le hshort.le hmin) (by norm_num)
  unfold expansion
  simp only
  split
  · exact hratio
  · exact le_min (by norm_num) hratio

omit [FloorSemiring K] in
theorem multiplier_bounds (min_time seconds : K) :
    1 < multiplier min_time seconds ∧ multiplier min_time seconds ≤ 14 := by
  unfold multiplier
  split
  · exact ⟨by norm_num, by norm_num⟩
  · exact ⟨not_le.mp ‹_›, expansion_le min_time seconds⟩

omit [FloorSemiring K] in
theorem multiplier_ge {min_time seconds : K} (hmin : 1e-9 ≤ min_time) (hshort : seconds < min_time) :
    1.4 ≤ multiplier min_time seconds := by
  unfold multiplier
  split
  · norm_num
  · exact expansion_ge hmin hshort

theorem nextIters_le (min_time seconds : K) (iters : Nat) :
    nextIters min_time seconds iters ≤ kMaxIterations := by
  unfold nextIters
  simp only
  rw [← Nat.lt_succ_iff, Nat.floor_lt (by split <;> positivity)]
  push_cast
  split
  · norm_num
  · have := not_lt.mp ‹_›
    norm_num at this ⊢
    linarith

theorem lt_nextIters (min_time seconds : K) {iters : Nat} (h : iters < kMaxIterations) :
    iters < nextIters min_time seconds iters := by
  have hcast : (iters : K) + 1 ≤ kMaxIterations := by exact_mod_cast h
  unfold nextIters
  simp only
  refine Nat.succ_le_iff.mp (Nat.le_floor ?_)
  push_cast
  split
  · linarith
  · have := le_max_right (multiplier min_time seconds * iters) ((iters : K) + 1)
    linarith

theorem nextIters_le_mul (min_time seconds : K) {iters : Nat} (h : 1 ≤ iters) :
    nextIters min_time seconds iters ≤ 14 * iters := by
  have hcast : (1 : K) ≤ iters := by exact_mod_cast h
  have hmul := mul_le_mul_of_nonneg_right (multiplier_bounds min_time seconds).2
    (Nat.cast_nonneg iters : (0 : K) ≤ iters)
  have hmax : max (multiplier min_time seconds * iters) ((iters : K) + 1) ≤ 14 * iters :=
    max_le hmul (by linarith)
  unfold nextIters
  simp only
  rw [← Nat.lt_succ_iff, Nat.floor_lt (by split <;> positivity)]
  push_cast
  split
  · have := (‹(kMaxIterations : K) < _›).trans_le hmax
    linarith
  · linarith

/-- The least growth of one step. -/
def growth (iters : Nat) : Nat := min kMaxIterations (max (iters + 1) ((14 * iters + 5) / 10))

theorem growth_limit : kMaxIterations ≤ growth^[61] 1 := by decide +kernel

theorem growth_le_nextIters {min_time seconds : K} (hmin : 1e-9 ≤ min_time) (hshort : seconds < min_time)
    (iters : Nat) : growth iters ≤ nextIters min_time seconds iters := by
  have hmul := mul_le_mul_of_nonneg_right (multiplier_ge hmin hshort) (Nat.cast_nonneg iters : (0 : K) ≤ iters)
  have hdiv : (((14 * iters + 5) / 10 : Nat) : K) ≤ (14 * iters + 5) / 10 := by
    have h : (((14 * iters + 5) / 10 : Nat) : K) ≤ ((14 * iters + 5 : Nat) : K) / ((10 : Nat) : K) :=
      Nat.cast_div_le
    push_cast at h
    exact h
  unfold nextIters
  simp only
  refine Nat.le_floor ?_
  split
  · have hcap : (growth iters : K) ≤ kMaxIterations := by exact_mod_cast min_le_left _ _
    linarith
  · have hle : (growth iters : K) ≤ max ((iters : K) + 1) (((14 * iters + 5) / 10 : Nat) : K) := by
      have h := min_le_right kMaxIterations (max (iters + 1) ((14 * iters + 5) / 10))
      exact_mod_cast h
    have hfirst := le_max_left (multiplier min_time seconds * iters) ((iters : K) + 1)
    have hsecond := le_max_right (multiplier min_time seconds * iters) ((iters : K) + 1)
    refine hle.trans (max_le (by linarith) ?_)
    norm_num at hmul ⊢
    linarith

theorem growth_mono : Monotone growth := by
  intro i j h
  unfold growth
  omega

/-! ### One repetition

`outcome n iters` is what the try number `n` measures when it has `iters` iterations. -/

omit [IsStrictOrderedRing K] [FloorSemiring K] in
theorem lt_of_not_enough {b : Instance K} {flags : Flags K} {i iters : Nat} {o : Outcome K}
    (h : ¬ b.enough flags i iters o) :
    i = 0 ∧ iters < kMaxIterations ∧ b.seconds o < b.minTime flags ∧
      o.real_time_used < 5 * b.minTime flags := by
  simp only [Instance.enough, not_or, not_lt, not_le, Nat.le_zero] at h
  exact h

/-- The iterations of the tries of a repetition, the last of which is the one reported. -/
structure Settled (K : Type) where
  tried : List Nat
  iters : Nat
  outcome : Outcome K

/-- The loop `for(;;)` of the repetition `i`, whose first try is the number `n` and has `iters`
iterations. -/
def settle (b : Instance K) (flags : Flags K) (outcome : Nat → Nat → Outcome K) (i n iters : Nat) :
    Settled K :=
  if h : b.enough flags i iters (outcome n iters) then ⟨[iters], iters, outcome n iters⟩
  else
    have hlt := (lt_of_not_enough h).2.1
    have _hmore := lt_nextIters (b.minTime flags) (b.seconds (outcome n iters)) hlt
    have _hmax := nextIters_le (b.minTime flags) (b.seconds (outcome n iters)) iters
    let later := settle b flags outcome i (n + 1)
      (nextIters (b.minTime flags) (b.seconds (outcome n iters)) iters)
    { later with tried := iters :: later.tried }
termination_by kMaxIterations - iters
decreasing_by omega

section Equations

variable {b : Instance K} {flags : Flags K} {outcome : Nat → Nat → Outcome K} {i n iters : Nat}

theorem settle_enough (h : b.enough flags i iters (outcome n iters)) :
    settle b flags outcome i n iters = ⟨[iters], iters, outcome n iters⟩ := by
  rw [settle, dif_pos h]

theorem settle_short (h : ¬ b.enough flags i iters (outcome n iters)) :
    settle b flags outcome i n iters =
      let later := settle b flags outcome i (n + 1)
        (nextIters (b.minTime flags) (b.seconds (outcome n iters)) iters)
      { later with tried := iters :: later.tried } := by
  rw [settle, dif_neg h]

end Equations

/-- From one try to the next the iterations grow, at most fourteenfold. -/
def Grows (iters iters' : Nat) : Prop := iters < iters' ∧ iters' ≤ 14 * iters

/-- What is known of a repetition that begins with `iters` iterations: the tries before the one reported
were too short, and that one is not or has come to the limit. -/
structure SettledFrom (b : Instance K) (flags : Flags K) (outcome : Nat → Nat → Outcome K)
    (i n iters : Nat) (shorter : List Nat) (settled : Settled K) : Prop where
  tried : settled.tried = shorter ++ [settled.iters]
  head : settled.tried.head? = some iters
  grows : settled.tried.IsChain Grows
  iters_le : settled.iters ≤ kMaxIterations
  outcome_eq : settled.outcome = outcome (n + shorter.length) settled.iters
  enough : b.enough flags i settled.iters settled.outcome
  short : ∀ k tried, shorter[k]? = some tried →
    b.seconds (outcome (n + k) tried) < b.minTime flags ∧
      (outcome (n + k) tried).real_time_used < 5 * b.minTime flags

theorem settle_from (b : Instance K) (flags : Flags K) (outcome : Nat → Nat → Outcome K) (i n iters : Nat)
    (hpos : 1 ≤ iters) (hle : iters ≤ kMaxIterations) :
    ∃ shorter, SettledFrom b flags outcome i n iters shorter (settle b flags outcome i n iters) := by
  induction n, iters using settle.induct b flags outcome i with
  | case1 n iters h =>
    rw [settle_enough h]
    exact ⟨[], rfl, rfl, by simp, hle, rfl, h, by simp⟩
  | case2 n iters h hlt hmore hmax ih =>
    obtain ⟨-, -, hshort, hreal⟩ := lt_of_not_enough h
    obtain ⟨shorter, hlater⟩ := ih (by omega) hmax
    rw [settle_short h]
    refine ⟨iters :: shorter, by simp [hlater.tried], rfl, ?_, hlater.iters_le, ?_, hlater.enough, ?_⟩
    · have hgrows : Grows iters _ := ⟨hmore, nextIters_le_mul _ _ hpos⟩
      refine List.isChain_cons.mpr ⟨fun next hnext => ?_, hlater.grows⟩
      rw [hlater.head] at hnext
      obtain rfl := Option.some.inj hnext
      exact hgrows
    · have hcount : n + (iters :: shorter).length = n + 1 + shorter.length := by
        simp only [List.length_cons]
        omega
      rw [hcount]
      exact hlater.outcome_eq
    · intro k tried hk
      cases k with
      | zero =>
        obtain rfl := Option.some.inj hk
        exact ⟨hshort, hreal⟩
      | succ k =>
        have hlast := hlater.short k tried hk
        rwa [Nat.add_right_comm, Nat.add_assoc] at hlast

/-- Where a try that is too short is made longer by two fifths at least, few tries are needed. -/
theorem settle_length (b : Instance K) (flags : Flags K) (outcome : Nat → Nat → Outcome K) (i n iters : Nat)
    (hmin : 1e-9 ≤ b.minTime flags) (left : Nat) (hleft : kMaxIterations ≤ growth^[left] iters) :
    (settle b flags outcome i n iters).tried.length ≤ left + 1 := by
  induction left generalizing n iters with
  | zero =>
    have henough : b.enough flags i iters (outcome n iters) := .inr (.inl hleft)
    simp [settle_enough henough]
  | succ left ih =>
    by_cases h : b.enough flags i iters (outcome n iters)
    · simp [settle_enough h]
    · rw [settle_short h]
      have hgrown := growth_le_nextIters hmin (lt_of_not_enough h).2.2.1 iters
      have hiterate := hleft.trans ((growth_mono.iterate left) hgrown)
      have hlater := ih (n + 1) _ hiterate
      simp only [List.length_cons]
      omega

theorem settle_later (b : Instance K) (flags : Flags K) (outcome : Nat → Nat → Outcome K) (i n iters : Nat) :
    settle b flags outcome (i + 1) n iters = ⟨[iters], iters, outcome n iters⟩ :=
  settle_enough (.inl i.succ_pos)

/-! ### All repetitions -/

/-- The iterations of all tries, as `VLOG` prints them, and the reports given to the reporter. -/
structure Run (K : Type) where
  tried : List Nat
  reports : List (Report K)

/-- The repetitions from `i` on, `left` of them. -/
def repetitions (b : Instance K) (flags : Flags K) (outcome : Nat → Nat → Outcome K) :
    Nat → Nat → Nat → Nat → Run K
  | 0, _, _, _ => ⟨[], []⟩
  | left + 1, i, n, iters =>
    let settled := settle b flags outcome i n iters
    let later := repetitions b flags outcome left (i + 1) (n + settled.tried.length) settled.iters
    ⟨settled.tried ++ later.tried, b.report settled.iters settled.outcome :: later.reports⟩

def runBenchmark (b : Instance K) (flags : Flags K) (outcome : Nat → Nat → Outcome K) : Run K :=
  repetitions b flags outcome flags.benchmark_repetitions.toNat 0 0 1

/-- The repetitions after the first one are one try each, with the iterations found by the first. -/
theorem repetitions_later (b : Instance K) (flags : Flags K) (outcome : Nat → Nat → Outcome K)
    (left i n iters : Nat) :
    repetitions b flags outcome left (i + 1) n iters = ⟨List.replicate left iters,
      (List.range left).map fun k => b.report iters (outcome (n + k) iters)⟩ := by
  induction left generalizing i n with
  | zero => rfl
  | succ left ih =>
    simp only [repetitions, settle_later, ih]
    refine congrArg₂ Run.mk (by simp [List.replicate_succ]) ?_
    rw [List.range_succ_eq_map]
    simp [Nat.add_comm, Nat.add_left_comm]

/-- **`RunBenchmark` settles, whatever the tries measure.** The first repetition begins with one iteration and
grows the iterations until a try is long enough or has the most iterations allowed; every try before was too
short, and there are at most 61 of these unless the time asked for is below a nanosecond. All repetitions report
the iterations it has settled on. -/
theorem runBenchmark_settles (b : Instance K) (flags : Flags K) (outcome : Nat → Nat → Outcome K)
    (hrepetitions : 1 ≤ flags.benchmark_repetitions) :
    ∃ shorter iters, 1 ≤ iters ∧ iters ≤ kMaxIterations ∧
      (runBenchmark b flags outcome).tried
        = shorter ++ List.replicate flags.benchmark_repetitions.toNat iters ∧
      (runBenchmark b flags outcome).reports = (List.range flags.benchmark_repetitions.toNat).map
        (fun k => b.report iters (outcome (shorter.length + k) iters)) ∧
      (shorter ++ [iters]).head? = some 1 ∧ (shorter ++ [iters]).IsChain Grows ∧
      (∀ k tried, shorter[k]? = some tried → b.seconds (outcome k tried) < b.minTime flags ∧
        (outcome k tried).real_time_used < 5 * b.minTime flags) ∧
      (iters = kMaxIterations ∨ b.minTime flags ≤ b.seconds (outcome shorter.length iters) ∨
        5 * b.minTime flags ≤ (outcome shorter.length iters).real_time_used) ∧
      (1e-9 ≤ b.minTime flags → shorter.length ≤ 61) := by
  obtain ⟨left, hleft⟩ : ∃ left, flags.benchmark_repetitions.toNat = left + 1 :=
    ⟨flags.benchmark_repetitions.toNat - 1, by omega⟩
  obtain ⟨shorter, hfrom⟩ := settle_from b flags outcome 0 0 1 le_rfl (by decide)
  obtain ⟨htried, hhead, hgrows, hle, houtcome, henough, hshort⟩ := hfrom
  simp only [Nat.zero_add] at houtcome hshort
  rw [htried] at hgrows hhead
  have hrun : runBenchmark b flags outcome = repetitions b flags outcome (left + 1) 0 0 1 := by
    rw [runBenchmark, hleft]
  have hpos : 1 ≤ (settle b flags outcome 0 0 1).iters := by
    rcases List.eq_nil_or_concat shorter with rfl | ⟨init, last, rfl⟩
    · exact (Option.some.inj hhead).ge
    · have hlast : Grows last (settle b flags outcome 0 0 1).iters := by
        rw [List.concat_eq_append, List.append_assoc] at hgrows
        exact hgrows.right_of_append.rel
      exact Nat.one_le_iff_ne_zero.mpr (Nat.ne_zero_of_lt hlast.1)
  refine ⟨shorter, (settle b flags outcome 0 0 1).iters, hpos, hle, ?_, ?_, hhead, hgrows, hshort, ?_, ?_⟩
  · rw [hrun, hleft, repetitions, repetitions_later, htried, List.replicate_succ]
    simp
  · rw [hrun, hleft, repetitions, repetitions_later, htried, houtcome, List.range_succ_eq_map]
    simp [Nat.add_comm, Nat.add_left_comm]
  · rw [← houtcome]
    rcases henough with h | h | h | h
    · exact absurd h (Nat.lt_irrefl 0)
    · exact .inl (le_antisymm hle h)
    · exact .inr (.inl h)
    · exact .inr (.inr h)
  · intro hmin
    have hlength := settle_length b flags outcome 0 0 1 hmin 61 growth_limit
    rw [htried, List.length_append, List.length_singleton] at hlength
    omega

/-- A benchmark whose iterations take a tenth of a second each. -/
def steady : Instance ℚ where
  benchmark := loop (fun _ _ => [.work]) fun _ => []
  has_arg1 := false
  arg1 := -1
  has_arg2 := false
  arg2 := -1
  time_unit := .kNanosecond
  use_real_time := false
  use_manual_time := false
  min_time := 0
  threads := 1

theorem runBenchmark_settles_steady : ∃ shorter iters,
    (runBenchmark steady ⟨3, 0.5⟩ fun _ iters => ⟨iters / 10, iters / 10, 0, ⟨0, 0⟩, []⟩).tried
      = shorter ++ List.replicate 3 iters ∧ (shorter ++ [iters]).head? = some 1 ∧
        (shorter ++ [iters]).IsChain Grows := by
  obtain ⟨shorter, iters, -, -, htried, -, hhead, hgrows, -⟩ := runBenchmark_settles steady ⟨3, 0.5⟩
    (fun _ iters => ⟨iters / 10, iters / 10, 0, ⟨0, 0⟩, []⟩) (by decide)
  exact ⟨shorter, iters, htried, hhead, hgrows⟩

end BenchmarkLibs.GoogleBenchmark

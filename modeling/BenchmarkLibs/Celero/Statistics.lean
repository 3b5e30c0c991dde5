import Mathlib
import BenchmarkLibs.Base.Extended
import BenchmarkLibs.Base.Moments

/-!
# Celero's running statistics

`Statistics` takes one sample after another and keeps only their number, four sums, the smallest and the
largest. With `double` as a field without rounding, the sums are the central moments of all samples taken
(`addSample_moments`), as long as the arithmetic of `size_t` between them does not wrap. Two statistics can
be added; there `size_t` wraps sooner, the third moment is lost where the second has more samples, and what is
added of no samples at all is not a number (`merge_moments_iff`).
-/

namespace BenchmarkLibs.Celero

open Moments

variable {K : Type} [Field K]

/-- `size_t` and `uint64_t`, of 64 bits. -/
def uint64 (x : Int) : Nat := (x % 2 ^ 64).toNat

theorem uint64_of_lt {x : Nat} (hx : x < 2 ^ 64) : uint64 x = x := by
  rw [uint64, Int.emod_eq_of_lt (Int.natCast_nonneg x) (by exact_mod_cast hx), Int.toNat_natCast]

theorem uint64_mul {a b : Nat} (h : a * b < 2 ^ 64) : uint64 (a * b) = a * b := by
  rw [← Nat.cast_mul, uint64_of_lt h]

structure Statistics (K : Type) where
  sampleSize : Nat
  M1 : K
  M2 : K
  M3 : K
  M4 : K
  min : Nat
  max : Nat

namespace Statistics

def empty : Statistics K where
  sampleSize := 0
  M1 := 0
  M2 := 0
  M3 := 0
  M4 := 0
  min := 2 ^ 64 - 1
  max := 0

def addSample (s : Statistics K) (x : Nat) : Statistics K :=
  let n1 := s.sampleSize
  let sampleSize := uint64 (s.sampleSize + 1)
  let delta := x - s.M1
  let delta_n := delta / sampleSize
  let delta_n2 := delta_n * delta_n
  let term1 := delta * delta_n * n1
  { sampleSize := sampleSize
    M1 := s.M1 + delta_n
    -- the two factors in brackets are computed as `size_t`
    M4 := s.M4 + (term1 * delta_n2 * (uint64 (sampleSize * sampleSize - 3 * sampleSize + 3) : Nat)
      + 6 * delta_n2 * s.M2 - 4 * delta_n * s.M3)
    M3 := s.M3 + (term1 * delta_n * (uint64 (sampleSize - 2) : Nat) - 3 * delta_n * s.M2)
    M2 := s.M2 + term1
    min := Min.min s.min x
    max := Max.max s.max x }

/-- `operator+`. The combined statistics keep the `min` and the `max` they are constructed with. -/
def merge {α : Type} [Add α] [Sub α] [Mul α] [Div α] [NatCast α] (s other : Statistics α) : Statistics α :=
  let n := uint64 (s.sampleSize + other.sampleSize)
  let delta := other.M1 - s.M1
  let delta2 := delta * delta
  let delta3 := delta * delta2
  let delta4 := delta2 * delta2
  { sampleSize := n
    M1 := (s.sampleSize * s.M1 + other.sampleSize * other.M1) / n
    M2 := s.M2 + other.M2 + delta2 * s.sampleSize * other.sampleSize / n
    M3 := s.M3 + other.M3
      + delta3 * s.sampleSize * other.sampleSize * (uint64 (s.sampleSize - other.sampleSize) : Nat)
        / (uint64 (n * n) : Nat)
      + (3 : Nat) * delta * (s.sampleSize * other.M2 - other.sampleSize * s.M2) / n
    M4 := s.M4 + other.M4
      + delta4 * s.sampleSize * other.sampleSize
        * (uint64 (s.sampleSize * s.sampleSize - s.sampleSize * other.sampleSize
          + other.sampleSize * other.sampleSize) : Nat)
        / (uint64 (n * n * n) : Nat)
      + ((6 : Nat) * delta2 * ((uint64 (s.sampleSize * s.sampleSize) : Nat) * other.M2
          + (uint64 (other.sampleSize * other.sampleSize) : Nat) * s.M2) / (uint64 (n * n) : Nat)
        + (4 : Nat) * delta * (s.sampleSize * other.M3 - other.sampleSize * s.M3) / n)
    min := 2 ^ 64 - 1
    max := 0 }

/-- The sums as `double`s, which need not be finite. -/
def extended (s : Statistics K) : Statistics (Extended K) where
  sampleSize := s.sampleSize
  M1 := .finite s.M1
  M2 := .finite s.M2
  M3 := .finite s.M3
  M4 := .finite s.M4
  min := s.min
  max := s.max

def getVariance (s : Statistics K) : K :=
  if 1 < s.sampleSize then s.M2 / (uint64 (s.sampleSize - 1) : Nat) else 0

/-- What the statistics are of the samples `xs`. -/
def ofSamples (xs : List Nat) : Statistics K := xs.foldl addSample empty

end Statistics

/-! ### Samples one by one -/

/-- The statistics are those of the samples. -/
structure Accumulates (s : Statistics K) (xs : List Nat) : Prop where
  sampleSize : s.sampleSize = xs.length
  M1 : s.M1 = mean (xs.map Nat.cast)
  M2 : s.M2 = central 2 (xs.map Nat.cast)
  M3 : s.M3 = central 3 (xs.map Nat.cast)
  M4 : xs.length ≤ 2 ^ 32 + 1 → s.M4 = central 4 (xs.map Nat.cast)
  bounds : ∀ x ∈ xs, s.min ≤ x ∧ x ≤ s.max
  min_mem : s.min ∈ xs ∨ s.min = 2 ^ 64 - 1
  max_mem : s.max ∈ xs ∨ s.max = 0

theorem Accumulates.empty : Accumulates (.empty : Statistics K) [] where
  sampleSize := rfl
  M1 := by simp [Statistics.empty, mean]
  M2 := rfl
  M3 := rfl
  M4 _ := rfl
  bounds := by simp
  min_mem := Or.inr rfl
  max_mem := Or.inr rfl

/-- The factor of the third moment; with one sample the subtraction wraps, but is multiplied by zero. -/
private theorem cast_uint64_sub_two {n : Nat} (hn : n + 1 < 2 ^ 64) (y : K) :
    y * n * (uint64 ((n + 1 : Nat) - 2) : Nat) = y * n * (n - 1) := by
  rcases n with _ | n
  · simp
  · have hcast : (((n + 1 + 1 : Nat) : Int) - 2) = (n : Nat) := by omega
    rw [hcast, uint64_of_lt (by omega)]
    push_cast
    ring

/-- The factor of the fourth moment, where it does not wrap. -/
private theorem cast_uint64_quadratic {n : Nat} (hn : n ≤ 2 ^ 32) :
    ((uint64 ((n + 1 : Nat) * (n + 1 : Nat) - 3 * (n + 1 : Nat) + 3) : Nat) : K) = n ^ 2 - n + 1 := by
  rcases n with _ | n
  · norm_num [uint64]
  · have hcast : (((n + 1 + 1 : Nat) : Int) * (n + 1 + 1 : Nat) - 3 * (n + 1 + 1 : Nat) + 3)
        = (n * n + n + 1 : Nat) := by
      push_cast
      ring
    have hlt : n * n + n + 1 < 2 ^ 64 := by nlinarith
    rw [hcast, uint64_of_lt hlt]
    push_cast
    ring

variable [CharZero K]

theorem Accumulates.addSample {s : Statistics K} {xs : List Nat} (h : Accumulates s xs)
    (hlength : xs.length + 1 < 2 ^ 64) (x : Nat) : Accumulates (s.addSample x) (xs ++ [x]) := by
  have hne : ((xs.map Nat.cast : List K).length : K) + ([(x : K)]).length ≠ 0 := by
    rw [List.length_map, List.length_singleton]
    exact_mod_cast xs.length.succ_ne_zero
  have hne' : (xs.length : K) + 1 ≠ 0 := by exact_mod_cast xs.length.succ_ne_zero
  have hsize : uint64 (xs.length + 1) = xs.length + 1 := uint64_of_lt hlength
  constructor
  · rw [List.length_append, List.length_singleton, ← hsize, ← h.sampleSize]
    rfl
  · rw [List.map_append, List.map_singleton, mean_append, mean_singleton]
    simp only [Statistics.addSample, h.sampleSize, hsize, h.M1, List.length_map, List.length_singleton]
    push_cast
    field_simp
    ring
  · rw [List.map_append, List.map_singleton, central_two_append _ _ hne, central_singleton, mean_singleton]
    simp only [Statistics.addSample, h.sampleSize, hsize, h.M1, h.M2, List.length_map, List.length_singleton]
    push_cast
    field_simp
    ring
  · rw [List.map_append, List.map_singleton, central_three_append _ _ hne, central_singleton, central_singleton,
      mean_singleton]
    simp only [Statistics.addSample, h.sampleSize, hsize, h.M1, h.M2, h.M3, List.length_map,
      List.length_singleton]
    rw [mul_right_comm _ (xs.length : K), cast_uint64_sub_two hlength]
    push_cast
    field_simp
    ring
  · intro hshort
    rw [List.length_append, List.length_singleton] at hshort
    rw [List.map_append, List.map_singleton, central_four_append _ _ hne, central_singleton, central_singleton,
      central_singleton, mean_singleton]
    simp only [Statistics.addSample, h.sampleSize, hsize, h.M1, h.M2, h.M3, h.M4 (by omega), List.length_map,
      List.length_singleton]
    rw [cast_uint64_quadratic (by omega)]
    push_cast
    field_simp
    ring
  · intro y hy
    change Min.min s.min x ≤ y ∧ y ≤ Max.max s.max x
    rcases List.mem_append.mp hy with hy | hy
    · have hbounds := h.bounds y hy
      omega
    · rw [List.mem_singleton.mp hy]
      omega
  · change Min.min s.min x ∈ xs ++ [x] ∨ Min.min s.min x = 2 ^ 64 - 1
    rcases min_choice s.min x with hmin | hmin
    · rw [hmin]
      exact h.min_mem.imp (List.mem_append_left _) id
    · rw [hmin]
      exact Or.inl (by simp)
  · change Max.max s.max x ∈ xs ++ [x] ∨ Max.max s.max x = 0
    rcases max_choice s.max x with hmax | hmax
    · rw [hmax]
      exact h.max_mem.imp (List.mem_append_left _) id
    · rw [hmax]
      exact Or.inl (by simp)

theorem accumulates_ofSamples {xs : List Nat} (hlength : xs.length < 2 ^ 64) :
    Accumulates (.ofSamples xs : Statistics K) xs := by
  induction xs using List.reverseRecOn with
  | nil => exact .empty
  | append_singleton xs x ih =>
    rw [List.length_append, List.length_singleton] at hlength
    rw [Statistics.ofSamples, List.foldl_append]
    exact (ih (by omega)).addSample hlength x

/-- Whatever samples are taken, one after another, the statistics hold their number, their mean, their central
moments (the fourth up to `2 ^ 32 + 1` samples), the smallest and the largest, and the sample variance. -/
theorem addSample_moments (xs : List Nat) (hlength : xs.length < 2 ^ 64) (hsamples : ∀ x ∈ xs, x < 2 ^ 64) :
    let s : Statistics K := .ofSamples xs
    s.sampleSize = xs.length ∧
      s.M1 = mean (xs.map Nat.cast) ∧
      s.M2 = central 2 (xs.map Nat.cast) ∧
      s.M3 = central 3 (xs.map Nat.cast) ∧
      (xs.length ≤ 2 ^ 32 + 1 → s.M4 = central 4 (xs.map Nat.cast)) ∧
      (∀ x ∈ xs, s.min ≤ x ∧ x ≤ s.max) ∧
      (xs ≠ [] → s.min ∈ xs ∧ s.max ∈ xs) ∧
      (1 < xs.length → s.getVariance = central 2 (xs.map Nat.cast) / (xs.length - 1)) := by
  intro s
  have h : Accumulates s xs := accumulates_ofSamples hlength
  refine ⟨h.sampleSize, h.M1, h.M2, h.M3, h.M4, h.bounds, fun hne => ?_, fun hlong => ?_⟩
  · -- a sample that equals the value `min` or `max` starts from is itself among the samples
    obtain ⟨x, hx⟩ := List.exists_mem_of_ne_nil xs hne
    have hbounds := h.bounds x hx
    have hlt := hsamples x hx
    constructor
    · rcases h.min_mem with hmem | hstart
      · exact hmem
      · have heq : s.min = x := by omega
        rw [heq]
        exact hx
    · rcases h.max_mem with hmem | hstart
      · exact hmem
      · have heq : s.max = x := by omega
        rw [heq]
        exact hx
  · have hcast : ((xs.length : Int) - 1) = (xs.length - 1 : Nat) := by omega
    rw [Statistics.getVariance, h.sampleSize, if_pos hlong, h.M2, hcast, uint64_of_lt (by omega),
      Nat.cast_sub hlong.le, Nat.cast_one]

theorem addSample_moments_three :
    let s : Statistics ℚ := .ofSamples [3, 5, 10]
    s.M1 = 6 ∧ s.min = 3 ∧ s.getVariance = 13 := by
  have h := addSample_moments (K := ℚ) [3, 5, 10] (by decide) (by decide)
  obtain ⟨-, hM1, -, -, -, hbounds, hmem, hvariance⟩ := h
  refine ⟨?_, ?_, ?_⟩
  · rw [hM1]
    norm_num [mean]
  · rfl
  · rw [hvariance (by decide)]
    norm_num [central, deviations, mean]

/-! ### Two statistics -/

omit [CharZero K] in
private theorem cast_uint64_sub {n m : Nat} (hn : n < 2 ^ 64) (hm : m < 2 ^ 64) :
    ((uint64 ((n : Int) - m) : Nat) : K) = n - m + if m ≤ n then 0 else 2 ^ 64 := by
  split
  · rename_i hle
    have hcast : ((n : Int) - m) = (n - m : Nat) := by omega
    rw [hcast, uint64_of_lt (by omega), Nat.cast_sub hle, add_zero]
  · rename_i hlt
    have hmod : uint64 ((n : Int) - m) + m = n + 2 ^ 64 := by
      rw [uint64]
      omega
    have hcast : ((uint64 ((n : Int) - m) : Nat) : K) + m = n + 2 ^ 64 := by
      rw [← Nat.cast_add, hmod]
      norm_num
    rw [eq_sub_of_add_eq hcast]
    ring

section Merge

variable {s t : Statistics K} {xs ys : List Nat} (hs : Accumulates s xs) (ht : Accumulates t ys)

include hs ht

omit [CharZero K] in
private theorem merge_size (hlength : xs.length + ys.length < 2 ^ 64) :
    (s.merge t).sampleSize = xs.length + ys.length := by
  change uint64 (s.sampleSize + t.sampleSize) = _
  rw [hs.sampleSize, ht.sampleSize]
  exact uint64_of_lt hlength

private theorem merge_M1 (hlength : xs.length + ys.length < 2 ^ 64) :
    (s.merge t).M1 = mean ((xs ++ ys).map Nat.cast) := by
  have hsize := merge_size hs ht hlength
  change (s.sampleSize * s.M1 + t.sampleSize * t.M1) / ((s.merge t).sampleSize : K) = _
  rw [hsize, hs.sampleSize, ht.sampleSize, hs.M1, ht.M1, List.map_append, mean_append, List.length_map,
    List.length_map, Nat.cast_add]

private theorem merge_M2 (hne : 0 < xs.length + ys.length) (hlength : xs.length + ys.length < 2 ^ 64) :
    (s.merge t).M2 = central 2 ((xs ++ ys).map Nat.cast) := by
  have hne' : (((xs.map Nat.cast : List K).length : K) + ((ys.map Nat.cast : List K).length : K)) ≠ 0 := by
    rw [List.length_map, List.length_map]
    exact_mod_cast hne.ne'
  have hsize := merge_size hs ht hlength
  change s.M2 + t.M2 + (t.M1 - s.M1) * (t.M1 - s.M1) * s.sampleSize * t.sampleSize
    / ((s.merge t).sampleSize : K) = _
  rw [hsize, hs.sampleSize, ht.sampleSize, hs.M1, ht.M1, hs.M2, ht.M2, List.map_append,
    central_two_append _ _ hne', List.length_map, List.length_map, Nat.cast_add]
  ring

/-- In the third moment the difference of the sizes wraps where the second statistics have more samples. -/
private theorem merge_M3 (hne : 0 < xs.length + ys.length) (hlength : (xs.length + ys.length) ^ 2 < 2 ^ 64) :
    (s.merge t).M3 = central 3 ((xs ++ ys).map Nat.cast)
      + (mean (ys.map Nat.cast) - mean (xs.map Nat.cast)) ^ 3 * xs.length * ys.length
        * (if ys.length ≤ xs.length then 0 else 2 ^ 64) / (xs.length + ys.length) ^ 2 := by
  have hlt : xs.length + ys.length < 2 ^ 64 := by nlinarith
  have hne' : (((xs.map Nat.cast : List K).length : K) + ((ys.map Nat.cast : List K).length : K)) ≠ 0 := by
    rw [List.length_map, List.length_map]
    exact_mod_cast hne.ne'
  have hsize := merge_size hs ht hlt
  have hsquare : uint64 (((xs.length + ys.length : Nat) : Int) * (xs.length + ys.length : Nat))
      = (xs.length + ys.length) ^ 2 := by
    rw [uint64_mul (by nlinarith), sq]
  change s.M3 + t.M3
      + (t.M1 - s.M1) * ((t.M1 - s.M1) * (t.M1 - s.M1)) * s.sampleSize * t.sampleSize
        * (uint64 (s.sampleSize - t.sampleSize) : Nat)
        / (uint64 ((s.merge t).sampleSize * (s.merge t).sampleSize) : Nat)
      + (3 : Nat) * (t.M1 - s.M1) * (s.sampleSize * t.M2 - t.sampleSize * s.M2) / ((s.merge t).sampleSize : K) = _
  rw [hsize, hsquare, hs.sampleSize, ht.sampleSize, cast_uint64_sub (by omega) (by omega), hs.M1, ht.M1, hs.M2,
    ht.M2, hs.M3, ht.M3, List.map_append, central_three_append _ _ hne', List.length_map, List.length_map,
    Nat.cast_pow, Nat.cast_add]
  push_cast
  ring

private theorem merge_M3_iff (hne : 0 < xs.length + ys.length) (hlength : (xs.length + ys.length) ^ 2 < 2 ^ 64) :
    (s.merge t).M3 = central 3 ((xs ++ ys).map Nat.cast) ↔
      ys.length ≤ xs.length ∨ xs = [] ∨ mean (xs.map Nat.cast : List K) = mean (ys.map Nat.cast) := by
  have hsum : ((xs.length : K) + ys.length) ^ 2 ≠ 0 := by exact_mod_cast (pow_pos hne 2).ne'
  rw [merge_M3 hs ht hne hlength, add_eq_left, div_eq_zero_iff, or_iff_left hsum]
  by_cases hle : ys.length ≤ xs.length
  · simp only [hle, if_true, mul_zero, true_or]
  · have hys : (ys.length : K) ≠ 0 := by
      have hpos : ys.length ≠ 0 := by omega
      exact_mod_cast hpos
    rw [if_neg hle, mul_eq_zero, or_iff_left (by norm_num), mul_eq_zero, or_iff_left hys, mul_eq_zero,
      pow_eq_zero_iff (by decide), sub_eq_zero, Nat.cast_eq_zero, List.length_eq_zero_iff]
    tauto

private theorem merge_M4 (hne : 0 < xs.length + ys.length) (hlength : (xs.length + ys.length) ^ 3 < 2 ^ 64) :
    (s.merge t).M4 = central 4 ((xs ++ ys).map Nat.cast) := by
  have hlt : xs.length + ys.length < 2 ^ 22 := by
    by_contra hge
    have hcube := Nat.pow_le_pow_left (not_lt.mp hge) 3
    omega
  have hne' : (((xs.map Nat.cast : List K).length : K) + ((ys.map Nat.cast : List K).length : K)) ≠ 0 := by
    rw [List.length_map, List.length_map]
    exact_mod_cast hne.ne'
  have hsize := merge_size hs ht (by omega)
  obtain ⟨n, hn⟩ : ∃ n, n = xs.length := ⟨_, rfl⟩
  obtain ⟨m, hm⟩ : ∃ m, m = ys.length := ⟨_, rfl⟩
  rw [← hn, ← hm] at hlength hlt hsize
  have hsquare : uint64 (((n + m : Nat) : Int) * (n + m : Nat)) = (n + m) ^ 2 := by
    rw [uint64_mul (by nlinarith), sq]
  have hcube : uint64 (((n + m : Nat) : Int) * (n + m : Nat) * (n + m : Nat)) = (n + m) ^ 3 := by
    rw [← Nat.cast_mul, uint64_mul (by nlinarith), pow_succ, sq]
  have hmixed : ((uint64 ((n : Int) * n - n * m + m * m) : Nat) : K) = n ^ 2 - n * m + m ^ 2 := by
    have hle : n * m ≤ n * n + m * m := by nlinarith [sq_nonneg ((n : Int) - m)]
    have hcast : ((n : Int) * n - n * m + m * m) = (n * n + m * m - n * m : Nat) := by
      push_cast [hle]
      ring
    rw [hcast, uint64_of_lt (by nlinarith [Nat.sub_le (n * n + m * m) (n * m)]), Nat.cast_sub hle]
    push_cast
    ring
  change s.M4 + t.M4
      + (t.M1 - s.M1) * (t.M1 - s.M1) * ((t.M1 - s.M1) * (t.M1 - s.M1)) * s.sampleSize * t.sampleSize
        * (uint64 (s.sampleSize * s.sampleSize - s.sampleSize * t.sampleSize + t.sampleSize * t.sampleSize) : Nat)
        / (uint64 ((s.merge t).sampleSize * (s.merge t).sampleSize * (s.merge t).sampleSize) : Nat)
      + ((6 : Nat) * ((t.M1 - s.M1) * (t.M1 - s.M1)) * ((uint64 (s.sampleSize * s.sampleSize) : Nat) * t.M2
          + (uint64 (t.sampleSize * t.sampleSize) : Nat) * s.M2)
          / (uint64 ((s.merge t).sampleSize * (s.merge t).sampleSize) : Nat)
        + (4 : Nat) * (t.M1 - s.M1) * (s.sampleSize * t.M3 - t.sampleSize * s.M3) / ((s.merge t).sampleSize : K)) = _
  rw [hsize, hs.sampleSize, ht.sampleSize, ← hn, ← hm, hsquare, hcube, hmixed, uint64_mul (by nlinarith),
    uint64_mul (by nlinarith), hs.M1, ht.M1, hs.M2, ht.M2, hs.M3, ht.M3, hs.M4 (by omega), ht.M4 (by omega),
    List.map_append, central_four_append _ _ hne', List.length_map, List.length_map, ← hn, ← hm]
  push_cast
  ring

end Merge

section Extended

variable [LinearOrder K]

omit [CharZero K] in
/-- Where nothing is divided by zero, all is finite. -/
theorem extended_merge {s t : Statistics K} {n : Nat} (hn : uint64 (s.sampleSize + t.sampleSize) = n)
    (h1 : (n : K) ≠ 0) (h2 : ((uint64 (n * n) : Nat) : K) ≠ 0) (h3 : ((uint64 (n * n * n) : Nat) : K) ≠ 0) :
    s.extended.merge t.extended = (s.merge t).extended := by
  subst hn
  simp only [Statistics.merge, Statistics.extended, Extended.natCast_eq, Extended.finite_sub, Extended.finite_mul,
    Extended.finite_add, Extended.finite_div _ h1, Extended.finite_div _ h2, Extended.finite_div _ h3]

/-- As long as the cube of their number fits `size_t`, that is so of any samples. -/
private theorem extended_merge_samples {s t : Statistics K} {xs ys : List Nat}
    (hsize : uint64 (s.sampleSize + t.sampleSize) = xs.length + ys.length) (hpos : 0 < xs.length + ys.length)
    (hlength : (xs.length + ys.length) ^ 3 < 2 ^ 64) : s.extended.merge t.extended = (s.merge t).extended := by
  have hsquare : uint64 (((xs.length + ys.length : Nat) : Int) * (xs.length + ys.length : Nat)) ≠ 0 := by
    rw [uint64_mul (by nlinarith)]
    exact (Nat.mul_pos hpos hpos).ne'
  have hcube : uint64 (((xs.length + ys.length : Nat) : Int) * (xs.length + ys.length : Nat)
      * (xs.length + ys.length : Nat)) ≠ 0 := by
    rw [← Nat.cast_mul, uint64_mul (by nlinarith)]
    exact (Nat.mul_pos (Nat.mul_pos hpos hpos) hpos).ne'
  exact extended_merge hsize (Nat.cast_ne_zero.mpr hpos.ne') (Nat.cast_ne_zero.mpr hsquare) (Nat.cast_ne_zero.mpr hcube)

omit [CharZero K] in
theorem merge_empty : (Statistics.empty : Statistics K).extended.merge Statistics.empty.extended =
    ⟨0, .nan, .nan, .nan, .nan, 2 ^ 64 - 1, 0⟩ := by
  have hzero : uint64 0 = 0 := rfl
  simp only [Statistics.merge, Statistics.extended, Statistics.empty, hzero, Extended.natCast_eq,
    Extended.finite_sub, Extended.finite_mul, Extended.finite_add, Nat.cast_zero, mul_zero, sub_self,
    add_zero, Extended.zero_div_zero, Extended.add_nan]

/-- Statistics of two sequences of samples, added, are those of all the samples, as far as the number, the mean
and the second and fourth moments go. The third moment is right exactly where `size_t` does not wrap in the
difference of the two sizes, or what it multiplies is zero; the smallest and the largest sample are lost. Of no
samples at all, the mean and the moments are not numbers. -/
theorem merge_moments_iff (xs ys : List Nat) (hlength : (xs.length + ys.length) ^ 3 < 2 ^ 64) :
    let s : Statistics (Extended K) := (Statistics.ofSamples xs).extended.merge (Statistics.ofSamples ys).extended
    let all : Statistics K := .ofSamples (xs ++ ys)
    s.sampleSize = all.sampleSize ∧ s.min = 2 ^ 64 - 1 ∧ s.max = 0 ∧
      (xs ++ ys ≠ [] → s.M1 = .finite all.M1 ∧ s.M2 = .finite all.M2 ∧ s.M4 = .finite all.M4 ∧
        (s.M3 = .finite all.M3 ↔ ys.length ≤ xs.length ∨ xs = [] ∨
          mean (xs.map Nat.cast : List K) = mean (ys.map Nat.cast))) ∧
      (xs ++ ys = [] → s.M1 = .nan ∧ s.M2 = .nan ∧ s.M3 = .nan ∧ s.M4 = .nan) := by
  intro s all
  have hlt : xs.length + ys.length < 2 ^ 22 := by
    by_contra hge
    have hcube := Nat.pow_le_pow_left (not_lt.mp hge) 3
    omega
  have hs : Accumulates (.ofSamples xs : Statistics K) xs := accumulates_ofSamples (by omega)
  have ht : Accumulates (.ofSamples ys : Statistics K) ys := accumulates_ofSamples (by omega)
  have hall : Accumulates all (xs ++ ys) := accumulates_ofSamples (by rw [List.length_append]; omega)
  have hsize := merge_size hs ht (by omega)
  refine ⟨?_, rfl, rfl, fun hne => ?_, fun hnil => ?_⟩
  · rw [hall.sampleSize, List.length_append]
    exact hsize
  · have hpos : 0 < xs.length + ys.length := by
      rw [← List.length_append]
      exact List.length_pos_iff.mpr hne
    have hfinite : s = ((Statistics.ofSamples xs).merge (Statistics.ofSamples ys) : Statistics K).extended :=
      extended_merge_samples hsize hpos hlength
    rw [hfinite]
    refine ⟨?_, ?_, ?_, ?_⟩
    · rw [hall.M1]
      exact congrArg _ (merge_M1 hs ht (by omega))
    · rw [hall.M2]
      exact congrArg _ (merge_M2 hs ht hpos (by omega))
    · rw [hall.M4 (by rw [List.length_append]; omega)]
      exact congrArg _ (merge_M4 hs ht hpos hlength)
    · rw [Statistics.extended, Extended.finite.injEq, hall.M3]
      exact merge_M3_iff hs ht hpos (by nlinarith)
  · obtain ⟨rfl, rfl⟩ := List.append_eq_nil_iff.mp hnil
    have hempty : s = ⟨0, .nan, .nan, .nan, .nan, 2 ^ 64 - 1, 0⟩ := merge_empty
    rw [hempty]
    exact ⟨rfl, rfl, rfl, rfl⟩

end Extended

theorem merge_moments_iff_three :
    let s : Statistics (Extended ℚ) := (Statistics.ofSamples [3]).extended.merge (Statistics.ofSamples [4, 8]).extended
    s.M1 = .finite 5 ∧ s.M3 ≠ .finite (Statistics.ofSamples [3, 4, 8] : Statistics ℚ).M3 := by
  have h := merge_moments_iff (K := ℚ) [3] [4, 8] (by decide)
  obtain ⟨hM1, -, -, hM3⟩ := h.2.2.2.1 (by decide)
  refine ⟨?_, ?_⟩
  · rw [hM1]
    decide +kernel
  · intro heq
    have hcases := hM3.mp heq
    norm_num [mean] at hcases

end BenchmarkLibs.Celero

import BenchmarkLibs.Celero.Statistics

/-!
# Celero's archive

An archive has one entry for each group, run and experiment value, with the least, the greatest, the mean and
the last of the baseline measurements it was given. `add` keeps them up to date one result at a time
(`archive_summarizes`). Two things are exceptions: the statistics that go with the greatest measurement stay those
of the first result, and a first measurement that is not a number stays the least and the greatest.
-/

namespace BenchmarkLibs.Celero

variable {K : Type} [Field K] [LinearOrder K] [IsStrictOrderedRing K]

structure Key where
  GroupName : String
  RunName : String
  ExperimentValue : Int
  deriving DecidableEq

/-- What `add` takes from a result, and the time when it does. -/
structure Archived (K : Type) where
  key : Key
  baselineMeasurement : Extended K
  statistics : Statistics K
  now : Nat

/-- A measurement that is kept, with its time and its statistics. -/
structure Kept (K : Type) where
  Baseline : Extended K
  TimeSinceEpoch : Nat
  Stats : Statistics K

structure ArchiveEntry (K : Type) where
  key : Key
  FirstRanDate : Nat
  TotalSamplesCollected : Nat
  AverageBaseline : Extended K
  Min : Kept K
  Max : Kept K
  Current : Kept K

def Archived.kept (x : Archived K) : Kept K := ⟨x.baselineMeasurement, x.now, x.statistics⟩

def ArchiveEntry.create (x : Archived K) : ArchiveEntry K where
  key := x.key
  FirstRanDate := x.now
  TotalSamplesCollected := 1
  AverageBaseline := x.baselineMeasurement
  Min := x.kept
  Max := x.kept
  Current := x.kept

def ArchiveEntry.update (found : ArchiveEntry K) (x : Archived K) : ArchiveEntry K :=
  { found with
    Current := x.kept
    Min := if x.baselineMeasurement ≤ found.Min.Baseline then x.kept else found.Min
    -- `found->MaxStats = found->MaxStats`
    Max :=
      if found.Max.Baseline ≤ x.baselineMeasurement then { x.kept with Stats := found.Max.Stats } else found.Max
    AverageBaseline :=
      (found.AverageBaseline * found.TotalSamplesCollected + x.baselineMeasurement)
        / ((found.TotalSamplesCollected + 1) % 2 ^ 32 : Nat)
    TotalSamplesCollected := (found.TotalSamplesCollected + 1) % 2 ^ 32 }

def add : List (ArchiveEntry K) → Archived K → List (ArchiveEntry K)
  | [], x => [.create x]
  | found :: rest, x => if found.key = x.key then found.update x :: rest else found :: add rest x

/-! ### One entry -/

/-- `y` is the last of the least elements of `ys`, in the order `le`. -/
def IsLastLeast {α : Type} (le : α → α → Prop) (ys : List α) (y : α) : Prop :=
  ∃ before after, ys = before ++ y :: after ∧ (∀ z ∈ before, le y z) ∧ ∀ z ∈ after, ¬le z y

theorem IsLastLeast.singleton {α : Type} (le : α → α → Prop) (y : α) : IsLastLeast le [y] y :=
  ⟨[], [], rfl, by simp, by simp⟩

theorem IsLastLeast.append {α : Type} {le : α → α → Prop} {ys : List α} {y : α} (h : IsLastLeast le ys y) {x : α}
    (hx : ¬le x y) : IsLastLeast le (ys ++ [x]) y := by
  obtain ⟨before, after, rfl, hbefore, hafter⟩ := h
  refine ⟨before, after ++ [x], by simp, hbefore, fun z hz => ?_⟩
  rcases List.mem_append.mp hz with hz | hz
  · exact hafter z hz
  · rw [List.mem_singleton.mp hz]
    exact hx

theorem IsLastLeast.mem {α : Type} {le : α → α → Prop} {ys : List α} {y : α} (h : IsLastLeast le ys y) : y ∈ ys := by
  obtain ⟨before, after, rfl, -, -⟩ := h
  simp

theorem IsLastLeast.replace {α : Type} {le : α → α → Prop} {ys : List α} {y : α} (h : IsLastLeast le ys y) {x : α}
    (hx : le x y) (htrans : ∀ a b c, le a b → le b c → le a c) (htotal : ∀ z ∈ ys, ¬le z y → le y z) :
    IsLastLeast le (ys ++ [x]) x := by
  obtain ⟨before, after, rfl, hbefore, hafter⟩ := h
  refine ⟨before ++ y :: after, [], rfl, fun z hz => ?_, by simp⟩
  rcases List.mem_append.mp hz with hz | hz
  · exact htrans _ _ _ hx (hbefore z hz)
  · rcases List.mem_cons.mp hz with rfl | hz
    · exact hx
    · exact htrans _ _ _ hx (htotal z (by simp [hz]) (hafter z hz))

/-- The results that are compared: a measurement that is not a number is passed over, unless it is the first. -/
def compared (first : Archived K) (rest : List (Archived K)) : List (Archived K) :=
  if first.baselineMeasurement = .nan then [first]
  else first :: rest.filter fun x => x.baselineMeasurement ≠ .nan

/-- The entry is that of the results `first :: rest`. -/
structure Summarizes (e : ArchiveEntry K) (first : Archived K) (rest : List (Archived K)) : Prop where
  key : ∀ x ∈ first :: rest, x.key = e.key
  FirstRanDate : e.FirstRanDate = first.now
  TotalSamplesCollected : e.TotalSamplesCollected = (rest.length + 1) % 2 ^ 32
  AverageBaseline : rest.length + 1 < 2 ^ 32 →
    e.AverageBaseline = ((first :: rest).map Archived.baselineMeasurement).sum / (rest.length + 1 : Nat)
  Min : ∃ x, IsLastLeast (fun x y => x.baselineMeasurement ≤ y.baselineMeasurement) (compared first rest) x ∧
    e.Min = x.kept
  Max : ∃ x, IsLastLeast (fun x y => y.baselineMeasurement ≤ x.baselineMeasurement) (compared first rest) x ∧
    e.Max = { x.kept with Stats := first.statistics }
  Current : e.Current = ((first :: rest).getLast (List.cons_ne_nil _ _)).kept

omit [Field K] [IsStrictOrderedRing K] in
theorem compared_nil (first : Archived K) : compared first [] = [first] := by
  unfold compared
  split <;> rfl

section Compared

omit [Field K] [IsStrictOrderedRing K]

variable {le : Archived K → Archived K → Prop} {first : Archived K} {rest : List (Archived K)} {x y : Archived K}
  (h : IsLastLeast le (compared first rest) y)

include h

/-- A further result takes the place of the least where it is at most that. -/
theorem IsLastLeast.compared_replace
    (hnan : ∀ x y, le x y → x.baselineMeasurement ≠ .nan ∧ y.baselineMeasurement ≠ .nan)
    (htrans : ∀ x y z, le x y → le y z → le x z)
    (htotal : ∀ x y : Archived K, x.baselineMeasurement ≠ .nan → y.baselineMeasurement ≠ .nan → ¬le x y → le y x)
    (hx : le x y) : IsLastLeast le (compared first (rest ++ [x])) x := by
  obtain ⟨hxnan, hynan⟩ := hnan x y hx
  by_cases hfirst : first.baselineMeasurement = .nan
  · have hmem := h.mem
    rw [compared, if_pos hfirst, List.mem_singleton] at hmem
    exact absurd (hmem ▸ hfirst) hynan
  · have happend : compared first (rest ++ [x]) = compared first rest ++ [x] := by
      simp [compared, hfirst, hxnan]
    have hall : ∀ z ∈ compared first rest, z.baselineMeasurement ≠ .nan := by
      intro z hz
      rw [compared, if_neg hfirst] at hz
      rcases List.mem_cons.mp hz with rfl | hz
      · exact hfirst
      · exact of_decide_eq_true (List.mem_filter.mp hz).2
    rw [happend]
    exact h.replace hx htrans fun z hz => htotal z y (hall z hz) hynan

theorem IsLastLeast.compared_keep (hx : ¬le x y) : IsLastLeast le (compared first (rest ++ [x])) y := by
  by_cases hfirst : first.baselineMeasurement = .nan
  · have hsame : compared first (rest ++ [x]) = compared first rest := by simp [compared, hfirst]
    rw [hsame]
    exact h
  · by_cases hxnan : x.baselineMeasurement = .nan
    · have hsame : compared first (rest ++ [x]) = compared first rest := by simp [compared, hfirst, hxnan]
      rw [hsame]
      exact h
    · have happend : compared first (rest ++ [x]) = compared first rest ++ [x] := by
        simp [compared, hfirst, hxnan]
      rw [happend]
      exact h.append hx

end Compared

omit [Field K] [IsStrictOrderedRing K] in
theorem ne_nan_of_le {x y : Extended K} (h : x ≤ y) : x ≠ .nan ∧ y ≠ .nan := by
  constructor
  · rintro rfl
    exact Extended.not_nan_le y h
  · rintro rfl
    exact Extended.not_le_nan x h

theorem summarizes_create (x : Archived K) : Summarizes (.create x) x [] where
  key := List.forall_mem_singleton.mpr rfl
  FirstRanDate := rfl
  TotalSamplesCollected := rfl
  AverageBaseline _ := by
    rw [List.map_singleton, List.sum_singleton, List.length_nil, Nat.zero_add, Extended.div_natCast_one]
    rfl
  Min := ⟨x, by rw [compared_nil]; exact .singleton _ x, rfl⟩
  Max := ⟨x, by rw [compared_nil]; exact .singleton _ x, rfl⟩
  Current := rfl

theorem Summarizes.update {e : ArchiveEntry K} {first : Archived K} {rest : List (Archived K)}
    (h : Summarizes e first rest) {x : Archived K} (hx : x.key = e.key) :
    Summarizes (e.update x) first (rest ++ [x]) := by
  have hcons : first :: (rest ++ [x]) = (first :: rest) ++ [x] := rfl
  constructor
  · intro y hy
    rw [hcons] at hy
    rcases List.mem_append.mp hy with hy | hy
    · exact h.key y hy
    · rw [List.mem_singleton.mp hy]
      exact hx
  · exact h.FirstRanDate
  · change (e.TotalSamplesCollected + 1) % 2 ^ 32 = _
    rw [h.TotalSamplesCollected, List.length_append, List.length_singleton]
    omega
  · intro hshort
    rw [List.length_append, List.length_singleton] at hshort
    have hlength : e.TotalSamplesCollected = rest.length + 1 := by
      rw [h.TotalSamplesCollected]
      omega
    rw [hcons, List.map_append, List.sum_append, List.map_singleton, List.sum_singleton, ArchiveEntry.update]
    simp only
    rw [h.AverageBaseline (by omega), hlength, Nat.mod_eq_of_lt hshort, List.length_append, List.length_singleton,
      Extended.div_mul_natCast _ rest.length.succ_ne_zero]
  · obtain ⟨y, hy, hmin⟩ := h.Min
    have hbaseline : e.Min.Baseline = y.baselineMeasurement := by rw [hmin]; rfl
    rw [ArchiveEntry.update]
    simp only [hbaseline]
    split
    · rename_i hle
      refine ⟨x, hy.compared_replace (fun _ _ => ne_nan_of_le) (fun _ _ _ => Extended.le_trans) ?_ hle, rfl⟩
      exact fun _ _ hz hw hlt => Extended.le_of_not_le hz hw hlt
    · rename_i hlt
      exact ⟨y, hy.compared_keep hlt, hmin⟩
  · obtain ⟨y, hy, hmax⟩ := h.Max
    have hbaseline : e.Max.Baseline = y.baselineMeasurement := by rw [hmax]; rfl
    have hstats : e.Max.Stats = first.statistics := by rw [hmax]
    rw [ArchiveEntry.update]
    simp only [hbaseline, hstats]
    split
    · rename_i hle
      refine ⟨x, hy.compared_replace (fun _ _ h => (ne_nan_of_le h).symm) (fun _ _ _ hab hbc => Extended.le_trans hbc hab)
        ?_ hle, rfl⟩
      exact fun _ _ hz hw hlt => Extended.le_of_not_le hw hz hlt
    · rename_i hlt
      exact ⟨y, hy.compared_keep hlt, hmax⟩
  · simp only [hcons, List.getLast_append_singleton]
    rfl

/-! ### The archive -/

omit [IsStrictOrderedRing K] in
theorem keys_add (entries : List (ArchiveEntry K)) (x : Archived K) :
    (add entries x).map ArchiveEntry.key =
      entries.map ArchiveEntry.key ++ if x.key ∈ entries.map ArchiveEntry.key then [] else [x.key] := by
  induction entries with
  | nil => rfl
  | cons found rest ih =>
    rw [add]
    split
    · rename_i hkey
      simp [ArchiveEntry.update, hkey]
    · rename_i hkey
      rw [List.map_cons, ih]
      simp [Ne.symm hkey]

omit [IsStrictOrderedRing K] in
/-- Where an entry of the archive comes from. -/
theorem mem_add {entries : List (ArchiveEntry K)} {x : Archived K}
    (hnodup : (entries.map ArchiveEntry.key).Nodup) :
    ∀ e ∈ add entries x, (e ∈ entries ∧ x.key ≠ e.key) ∨
      (∃ found ∈ entries, x.key = found.key ∧ e = found.update x) ∨
      (x.key ∉ entries.map ArchiveEntry.key ∧ e = .create x) := by
  induction entries with
  | nil =>
    intro e he
    exact Or.inr (Or.inr ⟨by simp, List.mem_singleton.mp he⟩)
  | cons found rest ih =>
    intro e he
    rw [List.map_cons, List.nodup_cons] at hnodup
    rw [add] at he
    split at he
    · rename_i hkey
      rcases List.mem_cons.mp he with rfl | he
      · exact Or.inr (Or.inl ⟨found, List.mem_cons_self, hkey.symm, rfl⟩)
      · refine Or.inl ⟨List.mem_cons_of_mem _ he, fun heq => hnodup.1 ?_⟩
        rw [hkey, heq]
        exact List.mem_map_of_mem he
    · rename_i hkey
      rcases List.mem_cons.mp he with rfl | he
      · exact Or.inl ⟨List.mem_cons_self, Ne.symm hkey⟩
      · rcases ih hnodup.2 e he with ⟨hmem, hne⟩ | ⟨found', hmem, hfound⟩ | ⟨hnew, hcreate⟩
        · exact Or.inl ⟨List.mem_cons_of_mem _ hmem, hne⟩
        · exact Or.inr (Or.inl ⟨found', List.mem_cons_of_mem _ hmem, hfound⟩)
        · refine Or.inr (Or.inr ⟨?_, hcreate⟩)
          rw [List.map_cons, List.mem_cons, not_or]
          exact ⟨Ne.symm hkey, hnew⟩

/-- Whatever results are added, in whatever order: the keys of the archive are those of the results, each with
one entry, which is that of the results of the key. -/
theorem archive_summarizes (xs : List (Archived K)) :
    ((xs.foldl add []).map ArchiveEntry.key).Nodup ∧
      (∀ key, key ∈ (xs.foldl add []).map ArchiveEntry.key ↔ key ∈ xs.map Archived.key) ∧
      ∀ e ∈ xs.foldl add [], ∃ first rest, (xs.filter fun x => x.key = e.key) = first :: rest ∧
        Summarizes e first rest := by
  induction xs using List.reverseRecOn with
  | nil => simp
  | append_singleton xs x ih =>
    obtain ⟨hnodup, hkeys, hentries⟩ := ih
    rw [List.foldl_append, List.foldl_cons, List.foldl_nil]
    refine ⟨?_, fun key => ?_, fun e he => ?_⟩
    · rw [keys_add]
      split
      · rw [List.append_nil]
        exact hnodup
      · rename_i hnew
        exact hnodup.append (List.nodup_singleton _) (List.disjoint_singleton.mpr hnew)
    · rw [keys_add, List.mem_append, hkeys, List.map_append, List.mem_append]
      split
      · rename_i hold
        simp only [List.not_mem_nil, or_false, List.map_singleton, List.mem_singleton]
        constructor
        · exact Or.inl
        · rintro (hmem | rfl)
          · exact hmem
          · exact (hkeys _).mp hold
      · rfl
    · rcases mem_add hnodup e he with ⟨hmem, hne⟩ | ⟨found, hmem, hkey, rfl⟩ | ⟨hnew, rfl⟩
      · obtain ⟨first, rest, hfilter, hsummary⟩ := hentries e hmem
        refine ⟨first, rest, ?_, hsummary⟩
        rw [List.filter_append, hfilter, List.filter_singleton, decide_eq_false hne]
        simp
      · obtain ⟨first, rest, hfilter, hsummary⟩ := hentries found hmem
        refine ⟨first, rest ++ [x], ?_, hsummary.update hkey⟩
        have hsame : (found.update x).key = found.key := rfl
        rw [hsame, List.filter_append, hfilter, List.filter_singleton, decide_eq_true hkey]
        rfl
      · refine ⟨x, [], ?_, summarizes_create x⟩
        have hnone : (xs.filter fun y => y.key = x.key) = [] := by
          rw [List.filter_eq_nil_iff]
          intro y hy hkey
          exact hnew ((hkeys x.key).mpr (List.mem_map.mpr ⟨y, hy, of_decide_eq_true hkey⟩))
        have hcreate : (ArchiveEntry.create x).key = x.key := rfl
        rw [hcreate, List.filter_append, hnone, List.filter_singleton, decide_eq_true rfl]
        rfl

/-- A result that becomes the greatest, and then one that becomes the least. -/
def threeResults : List (Archived ℚ) :=
  [⟨⟨"g", "r", 0⟩, .finite 2, .ofSamples [20], 10⟩, ⟨⟨"g", "r", 0⟩, .finite 5, .ofSamples [50], 20⟩,
    ⟨⟨"g", "r", 0⟩, .finite 1, .ofSamples [10], 30⟩]

theorem archive_summarizes_three : ∃ e, threeResults.foldl add [] = [e] ∧
    e.Min = ⟨.finite 1, 30, .ofSamples [10]⟩ ∧ e.Max = ⟨.finite 5, 20, .ofSamples [20]⟩ ∧
    e.AverageBaseline = .finite (8 / 3) ∧
    ∃ first rest, (threeResults.filter fun x => x.key = e.key) = first :: rest ∧ Summarizes e first rest := by
  have hfold : ∃ e, threeResults.foldl add [] = [e] ∧ e.Min = ⟨.finite 1, 30, .ofSamples [10]⟩ ∧
      e.Max = ⟨.finite 5, 20, .ofSamples [20]⟩ ∧ e.AverageBaseline = .finite (8 / 3) := by
    refine ⟨_, rfl, ?_, ?_, ?_⟩
    · norm_num [ArchiveEntry.update, ArchiveEntry.create, Archived.kept]
    · norm_num [ArchiveEntry.update, ArchiveEntry.create, Archived.kept]
    · decide +kernel
  obtain ⟨e, he, hmin, hmax, haverage⟩ := hfold
  exact ⟨e, he, hmin, hmax, haverage, (archive_summarizes threeResults).2.2 e (by simp [he])⟩

end BenchmarkLibs.Celero

import BenchmarkLibs.Base.Glob
import BenchmarkLibs.Hayai.Parameters

/-!
# Registered tests and the filter

A filter is a list of patterns behind each other, and behind the first dash of those that exclude. What it
leaves of the registered tests is what its patterns, as languages, say (`applyPatternFilter_spec`).
-/

namespace BenchmarkLibs.Hayai

open Glob

/-- A test, with the effects of its functions on the state `σ` of the program and of its surroundings. -/
structure TestFactory (σ : Type) where
  CreateTest : σ → σ
  SetUp : σ → σ
  TestBody : σ → σ
  TearDown : σ → σ
  delete : σ → σ

/-- `TestDescriptor`, which is made with its canonical name and keeps it. -/
structure TestDescriptor (σ : Type) where
  FixtureName : List Char
  TestName : List Char
  CanonicalName : List Char
  Runs : Nat
  Iterations : Nat
  Factory : TestFactory σ
  Parameters : List TestParameterDescriptor
  IsDisabled : Bool
  canonical : CanonicalName = FixtureName ++ '.' :: TestName

variable {σ : Type}

def disabledPrefix : List Char :=
  ['D', 'I', 'S', 'A', 'B', 'L', 'E', 'D', '_']

/-- The descriptor that `RegisterTest` adds. -/
def RegisterTest (fixtureName testName : List Char) (runs iterations : Nat) (testFactory : TestFactory σ)
    (parameters : List TestParameterDescriptor) : TestDescriptor σ :=
  let isDisabled : Bool := 9 ≤ testName.length ∧ testName.take 9 = disabledPrefix
  let testName := if isDisabled then testName.drop 9 else testName
  ⟨fixtureName, testName, fixtureName ++ '.' :: testName, runs, iterations, testFactory, parameters, isDisabled, rfl⟩

/-- The text from the first `c` on. -/
def strchr (c : Char) : List Char → Option (List Char)
  | [] => none
  | c' :: text => if c' = c then some (c' :: text) else strchr c text

theorem strchr_length {c : Char} {text found : List Char} (h : strchr c text = some found) :
    found.length ≤ text.length ∧ found ≠ [] := by
  induction text with
  | nil => cases h
  | cons c' text ih =>
    rw [strchr] at h
    split at h
    · cases h
      exact ⟨le_rfl, List.cons_ne_nil c' text⟩
    · obtain ⟨hlength, hne⟩ := ih h
      exact ⟨Nat.le_succ_of_le hlength, hne⟩

/-- A pattern that a colon ends. -/
def PatternMatchesString (pattern str : List Char) : Bool :=
  match pattern, str with
  | [], str => str = []
  | ':' :: _, str => str = []
  | '?' :: _, [] => false
  | '?' :: pattern, _ :: str => PatternMatchesString pattern str
  | '*' :: pattern, [] => PatternMatchesString pattern []
  | '*' :: pattern, c :: str => PatternMatchesString ('*' :: pattern) str || PatternMatchesString pattern (c :: str)
  | _ :: _, [] => false
  | p :: pattern, c :: str => p = c && PatternMatchesString pattern str
termination_by (pattern.length, str.length)

def FilterMatchesString (filter str : List Char) : Bool :=
  PatternMatchesString filter str ||
    match _h : strchr ':' filter with
    | none => false
    | some next => FilterMatchesString next.tail str
termination_by filter.length
decreasing_by
  obtain ⟨hlength, hne⟩ := strchr_length _h
  rw [List.length_tail]
  have hpos := List.length_pos_of_ne_nil hne
  omega

/-- The filter split at its first dash. -/
def splitFilter (pattern : List Char) : List Char × List Char :=
  match strchr '-' pattern with
  | none => (pattern, [])
  | some dash =>
    let positive := pattern.take (pattern.length - dash.length)
    (if positive = [] then ['*'] else positive, dash.tail)

/-- The loop that erases what does not match. -/
def eraseTests (dropped : TestDescriptor σ → Bool) (index : Nat) (tests : List (TestDescriptor σ)) :
    List (TestDescriptor σ) :=
  if h : index < tests.length then
    if dropped tests[index] then eraseTests dropped index (tests.eraseIdx index)
    else eraseTests dropped (index + 1) tests
  else tests
termination_by tests.length - index
decreasing_by
  · rw [List.length_eraseIdx_of_lt h]
    omega
  · omega

def ApplyPatternFilter (pattern : List Char) (tests : List (TestDescriptor σ)) : List (TestDescriptor σ) :=
  let parts := splitFilter pattern
  eraseTests (fun desc =>
    !FilterMatchesString parts.1 desc.CanonicalName || FilterMatchesString parts.2 desc.CanonicalName) 0 tests

/-! ### The languages of a filter -/

/-- The symbol that a character of a pattern stands for. -/
def symbol (c : Char) : Symbol Char :=
  if c = '?' then .any else if c = '*' then .anyString else .char c

/-- The patterns of a filter, between its colons. -/
def patterns (filter : List Char) : List (List (Symbol Char)) :=
  (filter.splitOn ':').map (List.map symbol)

/-- The words that one of the patterns matches. -/
def filterLanguage (filter : List Char) : Language Char :=
  ((patterns filter).map language).sum

theorem patternMatchesString_iff (pattern str : List Char) :
    PatternMatchesString pattern str = true ↔
      str ∈ language ((pattern.takeWhile (· ≠ ':')).map symbol) := by
  fun_induction PatternMatchesString pattern str with
  | case1 str => simp [mem_language_nil]
  | case2 str tail => simp [mem_language_nil]
  | case3 tail =>
    simp [symbol, nil_notMem_any]
  | case4 pattern c str ih =>
    simp [symbol, cons_mem_any, ih]
  | case5 pattern ih =>
    simp [symbol, nil_mem_anyString, ih]
  | case6 pattern c str ih ih' =>
    simp [symbol, cons_mem_anyString, ih, ih']
  | case7 p pattern hcolon hany hstar =>
    have hsymbol : symbol p = .char p := by
      rw [symbol, if_neg hany, if_neg hstar]
    have htake : (p :: pattern).takeWhile (· ≠ ':') = p :: pattern.takeWhile (· ≠ ':') :=
      List.takeWhile_cons_of_pos (by simpa using hcolon)
    rw [htake, List.map_cons, hsymbol]
    exact iff_of_false Bool.false_ne_true nil_notMem_char
  | case8 p pattern c str hcolon hany hstar ih =>
    have hsymbol : symbol p = .char p := by
      rw [symbol, if_neg hany, if_neg hstar]
    have htake : (p :: pattern).takeWhile (· ≠ ':') = p :: pattern.takeWhile (· ≠ ':') :=
      List.takeWhile_cons_of_pos (by simpa using hcolon)
    rw [htake, List.map_cons, hsymbol, cons_mem_char, Bool.and_eq_true, decide_eq_true_eq, ih]

theorem strchr_eq_none {c : Char} {text : List Char} : strchr c text = none ↔ c ∉ text := by
  induction text with
  | nil => simp [strchr]
  | cons c' text ih =>
    rw [strchr]
    by_cases hc : c' = c
    · simp [hc]
    · rw [if_neg hc, ih, List.mem_cons, not_or]
      exact (and_iff_right (Ne.symm hc)).symm

theorem strchr_eq_some {c : Char} {text found : List Char} (h : strchr c text = some found) :
    text = text.takeWhile (· ≠ c) ++ found ∧ found = c :: found.tail := by
  induction text with
  | nil => cases h
  | cons c' text ih =>
    rw [strchr] at h
    by_cases hc : c' = c
    · rw [if_pos hc] at h
      cases h
      simp [hc]
    · rw [if_neg hc] at h
      obtain ⟨htext, hfound⟩ := ih h
      refine ⟨?_, hfound⟩
      rw [List.takeWhile_cons_of_pos (by simpa using hc), List.cons_append, ← htext]

theorem patterns_none {filter : List Char} (h : strchr ':' filter = none) :
    patterns filter = [filter.map symbol] := by
  have hnone := strchr_eq_none.mp h
  have hsplit : filter.splitOn ':' = [filter] :=
    List.splitOnP_eq_singleton fun c hc => beq_false_of_ne fun heq => hnone (heq ▸ hc)
  rw [patterns, hsplit]
  rfl

theorem patterns_some {filter next : List Char} (h : strchr ':' filter = some next) :
    patterns filter = (filter.takeWhile (· ≠ ':')).map symbol :: patterns next.tail := by
  obtain ⟨hfilter, hnext⟩ := strchr_eq_some h
  have hsplit : filter.splitOn ':' = filter.takeWhile (· ≠ ':') :: next.tail.splitOn ':' := by
    rw [hnext] at hfilter
    conv_lhs => rw [hfilter]
    refine List.splitOnP_append_cons_of_forall_mem (p := (· == ':')) (fun c hc => ?_) ':' rfl next.tail
    exact beq_false_of_ne (by simpa using List.mem_takeWhile_imp hc)
  rw [patterns, hsplit]
  rfl

theorem mem_filterLanguage {filter str : List Char} :
    str ∈ filterLanguage filter ↔ ∃ pattern ∈ patterns filter, str ∈ language pattern := by
  rw [filterLanguage, mem_sum]
  constructor
  · rintro ⟨l, hl, hstr⟩
    obtain ⟨pattern, hpattern, rfl⟩ := List.mem_map.mp hl
    exact ⟨pattern, hpattern, hstr⟩
  · rintro ⟨pattern, hpattern, hstr⟩
    exact ⟨language pattern, List.mem_map_of_mem hpattern, hstr⟩

theorem filterMatchesString_iff (filter str : List Char) :
    FilterMatchesString filter str = true ↔ str ∈ filterLanguage filter := by
  induction hlength : filter.length using Nat.strong_induction_on generalizing filter with
  | _ n ih =>
    rw [FilterMatchesString, Bool.or_eq_true, patternMatchesString_iff, mem_filterLanguage]
    split
    · rename_i hnone
      have hcolon : filter.takeWhile (· ≠ ':') = filter :=
        List.takeWhile_eq_self_iff.mpr fun c hc => by
          have hne : c ≠ ':' := fun heq => strchr_eq_none.mp hnone (heq ▸ hc)
          simpa using hne
      rw [patterns_none hnone, hcolon]
      simp
    · rename_i next hnext
      have hshorter : next.tail.length < n := by
        obtain ⟨hle, hne⟩ := strchr_length hnext
        have hpos := List.length_pos_of_ne_nil hne
        rw [List.length_tail]
        omega
      rw [ih _ hshorter next.tail rfl, patterns_some hnext, List.exists_mem_cons_iff, mem_filterLanguage]

instance (filter str : List Char) : Decidable (str ∈ filterLanguage filter) :=
  decidable_of_iff _ (filterMatchesString_iff filter str)

/-! ### The filter of the tests -/

/-- What stands before the first dash. -/
def positivePart (pattern : List Char) : List Char :=
  pattern.takeWhile (· ≠ '-')

/-- What stands behind it. -/
def negativePart (pattern : List Char) : List Char :=
  (pattern.dropWhile (· ≠ '-')).tail

/-- What a filter says of a name. With a dash, everything is matched if nothing stands before it. -/
def Selected (pattern name : List Char) : Prop :=
  (name ∈ filterLanguage (positivePart pattern) ∨ '-' ∈ pattern ∧ positivePart pattern = []) ∧
    ('-' ∈ pattern → name ∉ filterLanguage (negativePart pattern))

instance (pattern name : List Char) : Decidable (Selected pattern name) := by
  unfold Selected
  infer_instance

theorem eraseTests_eq (dropped : TestDescriptor σ → Bool) (index : Nat) (tests : List (TestDescriptor σ)) :
    eraseTests dropped index tests =
      tests.take index ++ (tests.drop index).filter fun desc => !dropped desc := by
  fun_induction eraseTests dropped index tests with
  | case1 index tests h hdropped ih =>
    have htake : (tests.eraseIdx index).take index = tests.take index := by
      rw [List.take_eraseIdx_eq_take_of_le _ _ _ le_rfl]
    have hdrop : (tests.eraseIdx index).drop index = tests.drop (index + 1) := by
      rw [List.eraseIdx_eq_take_drop_succ, List.drop_left']
      rw [List.length_take]
      omega
    rw [ih, htake, hdrop, List.drop_eq_getElem_cons h, List.filter_cons_of_neg (by simp [hdropped])]
  | case2 index tests h hkept ih =>
    rw [ih, List.drop_eq_getElem_cons h, List.filter_cons_of_pos (by simpa using hkept), List.take_add_one,
      List.getElem?_eq_getElem h, Option.toList_some, List.append_assoc, List.singleton_append]
  | case3 index tests h =>
    rw [List.take_of_length_le (by omega), List.drop_eq_nil_of_le (by omega)]
    simp

/-- The empty pattern matches no canonical name. -/
theorem TestDescriptor.canonicalName_notMem (desc : TestDescriptor σ) : desc.CanonicalName ∉ filterLanguage [] := by
  intro hmem
  rw [mem_filterLanguage] at hmem
  obtain ⟨pattern, hpattern, hname⟩ := hmem
  obtain rfl : pattern = [] := by simpa [patterns] using hpattern
  have hempty := mem_language_nil.mp hname
  rw [desc.canonical] at hempty
  simp at hempty

theorem mem_filterLanguage_star (name : List Char) : name ∈ filterLanguage ['*'] := by
  rw [mem_filterLanguage]
  have hpatterns : patterns ['*'] = [[.anyString]] := patterns_none rfl
  rw [hpatterns]
  exact ⟨[.anyString], List.mem_singleton_self _, mem_language_anyString name⟩

theorem splitFilter_selected (pattern : List Char) (desc : TestDescriptor σ) :
    (desc.CanonicalName ∈ filterLanguage (splitFilter pattern).1 ∧
      desc.CanonicalName ∉ filterLanguage (splitFilter pattern).2) ↔ Selected pattern desc.CanonicalName := by
  cases hdash : strchr '-' pattern with
  | none =>
    have hnone := strchr_eq_none.mp hdash
    have hpositive : positivePart pattern = pattern :=
      List.takeWhile_eq_self_iff.mpr fun c hc => by
        have hne : c ≠ '-' := fun heq => hnone (heq ▸ hc)
        simpa using hne
    rw [splitFilter, hdash, Selected, hpositive]
    simp [hnone, desc.canonicalName_notMem]
  | some dash =>
    obtain ⟨hpattern, hfound⟩ := strchr_eq_some hdash
    have hmem : '-' ∈ pattern := by
      rw [hpattern, hfound]
      simp
    have hpositive : pattern.take (pattern.length - dash.length) = positivePart pattern := by
      conv_lhs => rw [hpattern]
      rw [List.length_append, Nat.add_sub_cancel]
      exact List.take_left
    have hnegative : dash.tail = negativePart pattern := by
      have hdrop : pattern.dropWhile (· ≠ '-') = dash := by
        have hsplit : pattern.takeWhile (· ≠ '-') ++ pattern.dropWhile (· ≠ '-') = pattern :=
          List.takeWhile_append_dropWhile
        exact List.append_cancel_left (hsplit.trans hpattern)
      rw [negativePart, hdrop]
    simp only [splitFilter, hdash, hpositive, hnegative, Selected, hmem, true_and, true_implies]
    by_cases hempty : positivePart pattern = []
    · simp [hempty, mem_filterLanguage_star]
    · simp [hempty]

/-- The filter leaves the tests whose names are selected, and leaves them in their order. -/
theorem applyPatternFilter_spec (pattern : List Char) (tests : List (TestDescriptor σ)) :
    ApplyPatternFilter pattern tests = tests.filter fun desc => Selected pattern desc.CanonicalName := by
  rw [ApplyPatternFilter, eraseTests_eq, List.take_zero, List.nil_append, List.drop_zero]
  refine List.filter_congr fun desc _ => ?_
  rw [Bool.eq_iff_iff, decide_eq_true_eq, ← splitFilter_selected, ← filterMatchesString_iff,
    ← filterMatchesString_iff]
  simp

end BenchmarkLibs.Hayai

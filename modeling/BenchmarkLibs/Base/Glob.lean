import Mathlib.Computability.Language

/-!
# Patterns with wildcards

A pattern is a word of symbols, and what it matches is the product of their languages. The rules say what a
pattern matches by its first symbol, in the form in which a backtracking matcher asks for it.
-/

namespace Glob

inductive Symbol (α : Type*)
  | char (a : α)
  | any
  | anyString

variable {α : Type*}

def Symbol.language : Symbol α → Language α
  | .char a => {[a]}
  | .any => {word | ∃ a, word = [a]}
  | .anyString => ⊤

def language (pattern : List (Symbol α)) : Language α :=
  (pattern.map Symbol.language).prod

variable {pattern : List (Symbol α)} {word : List α} {a b : α}

theorem mem_language_nil : word ∈ language ([] : List (Symbol α)) ↔ word = [] := by
  show word ∈ (1 : Language α) ↔ word = []
  exact Language.mem_one word

theorem mem_language_cons {symbol : Symbol α} :
    word ∈ language (symbol :: pattern) ↔
      ∃ first ∈ symbol.language, ∃ rest ∈ language pattern, first ++ rest = word := by
  rw [language, List.map_cons, List.prod_cons]
  exact Language.mem_mul

theorem mem_anyString (word : List α) : word ∈ (Symbol.anyString : Symbol α).language :=
  trivial

theorem nil_notMem_char : [] ∉ language (.char a :: pattern) := by
  rw [mem_language_cons]
  rintro ⟨first, hfirst, rest, -, happend⟩
  obtain rfl : first = [a] := hfirst
  cases happend

theorem cons_mem_char : b :: word ∈ language (.char a :: pattern) ↔ a = b ∧ word ∈ language pattern := by
  rw [mem_language_cons]
  constructor
  · rintro ⟨first, hfirst, rest, hrest, happend⟩
    obtain rfl : first = [a] := hfirst
    cases happend
    exact ⟨rfl, hrest⟩
  · rintro ⟨rfl, hword⟩
    exact ⟨[a], rfl, word, hword, rfl⟩

theorem nil_notMem_any : [] ∉ language (.any :: pattern) := by
  rw [mem_language_cons]
  rintro ⟨first, ⟨a, rfl⟩, rest, -, happend⟩
  cases happend

theorem cons_mem_any : b :: word ∈ language (.any :: pattern) ↔ word ∈ language pattern := by
  rw [mem_language_cons]
  constructor
  · rintro ⟨first, ⟨a, rfl⟩, rest, hrest, happend⟩
    cases happend
    exact hrest
  · intro hword
    exact ⟨[b], ⟨b, rfl⟩, word, hword, rfl⟩

theorem nil_mem_anyString : [] ∈ language (.anyString :: pattern) ↔ [] ∈ language pattern := by
  rw [mem_language_cons]
  constructor
  · rintro ⟨first, -, rest, hrest, happend⟩
    obtain ⟨-, rfl⟩ := List.append_eq_nil_iff.mp happend
    exact hrest
  · intro hnil
    exact ⟨[], mem_anyString [], [], hnil, rfl⟩

/-- The first letter is of the string that the symbol stands for, or that string is empty. -/
theorem cons_mem_anyString : b :: word ∈ language (.anyString :: pattern) ↔
    word ∈ language (.anyString :: pattern) ∨ b :: word ∈ language pattern := by
  have hcons : ∀ word : List α, word ∈ language (.anyString :: pattern) ↔
      ∃ first ∈ (Symbol.anyString : Symbol α).language, ∃ rest ∈ language pattern, first ++ rest = word :=
    fun word => mem_language_cons
  rw [hcons, hcons]
  constructor
  · rintro ⟨first, -, rest, hrest, happend⟩
    cases first with
    | nil => exact .inr (happend ▸ hrest)
    | cons c first =>
      cases happend
      exact .inl ⟨first, mem_anyString first, rest, hrest, rfl⟩
  · rintro (⟨first, -, rest, hrest, rfl⟩ | hword)
    · exact ⟨b :: first, mem_anyString _, rest, hrest, rfl⟩
    · exact ⟨[], mem_anyString [], b :: word, hword, rfl⟩

/-- The pattern of one `anyString` matches every word. -/
theorem mem_language_anyString (word : List α) : word ∈ language [(.anyString : Symbol α)] := by
  rw [mem_language_cons]
  exact ⟨word, mem_anyString word, [], mem_language_nil.mpr rfl, word.append_nil⟩

/-- Of several languages. -/
theorem mem_sum {languages : List (Language α)} : word ∈ languages.sum ↔ ∃ l ∈ languages, word ∈ l := by
  induction languages with
  | nil => simp
  | cons l languages ih => rw [List.sum_cons, Language.mem_add, ih, List.exists_mem_cons_iff]

end Glob

import BenchmarkLibs.Base.Conditional
import Mathlib.Data.List.DropRight

/-!
# Parameters of a benchmark

A parametrized benchmark is declared with one macro and instantiated with others, and the texts of their
arguments are parsed when the program starts. A C string is the list of its characters, and a pointer into it
the list of those from there on.
-/

namespace BenchmarkLibs.Hayai

open Fallible

structure TestParameterDescriptor where
  Declaration : List Char
  Value : List Char
  deriving DecidableEq

inductive QuotingState
  | Unquoted
  | SingleQuoted
  | DoubleQuoted
  deriving DecidableEq

/-- White space to `TrimmedString`. -/
def isBlank (c : Char) : Bool :=
  c = ' ' ∨ c = '\r' ∨ c = '\n' ∨ c = '\t'

def TrimmedString (text : List Char) : List Char :=
  (text.dropWhile isBlank).rdropWhile isBlank

def opens (c : Char) : Bool :=
  c = '<' ∨ c = '(' ∨ c = '[' ∨ c = '{'

def closes (c : Char) : Bool :=
  c = '>' ∨ c = ')' ∨ c = ']' ∨ c = '}'

/-- The variables of the two loops that read up to a delimiter. -/
structure Scan where
  escapeCounter : Nat
  state : QuotingState
  escaped : Bool

def Scan.start : Scan := ⟨0, .Unquoted, false⟩

def isQuote (c : Char) : Bool :=
  c = '"' ∨ c = '\''

/-- A turn of either loop, which may be its last. -/
def Scan.turn (delimits : Char → Bool) (scan : Scan) (c : Char) : Option Scan :=
  if scan.state = .Unquoted then
    if isQuote c then
      some { scan with state := if c = '"' then .DoubleQuoted else .SingleQuoted, escaped := false }
    else if opens c then some { scan with escapeCounter := scan.escapeCounter + 1 }
    else if scan.escapeCounter ≠ 0 ∧ closes c then some { scan with escapeCounter := scan.escapeCounter - 1 }
    else if scan.escapeCounter = 0 ∧ delimits c then none
    else some scan
  else if scan.escaped then some { scan with escaped := false }
  else if c = '\\' then some { scan with escaped := true }
  else if c = (if scan.state = .DoubleQuoted then '"' else '\'') then some { scan with state := .Unquoted }
  else some scan

/-- What stands before the delimiter and what behind it. -/
def scanTo (delimits : Char → Bool) (scan : Scan) : List Char → Option (List Char × List Char)
  | [] => none
  | c :: text =>
    match scan.turn delimits c with
    | none => some ([], text)
    | some scan => (scanTo delimits scan text).map fun found => (c :: found.1, found.2)

theorem scanTo_length {delimits : Char → Bool} {scan : Scan} {text : List Char} {found : List Char × List Char}
    (h : scanTo delimits scan text = some found) : found.2.length < text.length := by
  induction text generalizing scan found with
  | nil => cases h
  | cons c text ih =>
    rw [scanTo] at h
    split at h
    · cases h
      exact Nat.lt_succ_self _
    · obtain ⟨found', hfound, rfl⟩ := Option.map_eq_some_iff.mp h
      have hshorter : found'.2.length < text.length := ih hfound
      exact Nat.lt_succ_of_lt hshorter

/-- The end of a value. -/
def separates (c : Char) : Bool :=
  c = ',' ∨ c = ')'

/-- The outer loop of `ParseCommaSeparated`. -/
def parseValues (separated : List Char) : List (List Char) :=
  if separated = [] ∨ separated.head? = some ')' then []
  else
    match _h : scanTo separates .start separated with
    | none => []
    | some found => TrimmedString found.1 :: parseValues found.2
termination_by separated.length
decreasing_by exact scanTo_length _h

def ParseCommaSeparated (separated : List Char) : List (List Char) :=
  parseValues separated.tail

def ParseDescriptor (raw : List Char) : TestParameterDescriptor :=
  match scanTo (fun c => c = '=') .start raw with
  | some found => ⟨TrimmedString found.1, TrimmedString found.2⟩
  | none => ⟨raw, []⟩

/-- `_parameters[i].Value = value` -/
def setValue (parameters : List TestParameterDescriptor) (i : Nat) (value : List Char) :
    Except Fault (List TestParameterDescriptor) := do
  let parameter ← readAt parameters i
  storeAt parameters i { parameter with Value := value }

/-- The text of the stream `variadic`. -/
def variadicText (values : List (List Char)) (straightValues variadicValues : Nat) : Except Fault (List Char) :=
  (List.range variadicValues).foldlM (fun text i => do
    let value ← readAt values (straightValues + i)
    .ok ((if i = 0 then text else text ++ [',', ' ']) ++ value)) []

/-- The values are given to the parameters, the last of which takes all that are left. -/
def assignValues (parameters : List TestParameterDescriptor) (values : List (List Char)) :
    Except Fault (List TestParameterDescriptor) := do
  let straightValues := if values.length < parameters.length then values.length else parameters.length
  let variadic := parameters.length < values.length
  let straightValues := if variadic ∧ 0 < straightValues then straightValues - 1 else straightValues
  let variadicValues := if variadic then values.length - parameters.length + 1 else 0
  let parameters ← (List.range straightValues).foldlM (fun parameters i => do
    let value ← readAt values i
    setValue parameters i value) parameters
  if variadicValues ≠ 0 then do
    let text ← variadicText values straightValues variadicValues
    -- without parameters the index wraps around
    if parameters.length = 0 then .error .outOfRange
    else setValue parameters (parameters.length - 1) text
  else .ok parameters

/-- The constructor from the texts of the declarations and of the values. -/
def TestParametersDescriptor (rawDeclarations rawValues : List Char) :
    Except Fault (List TestParameterDescriptor) :=
  assignValues ((ParseCommaSeparated rawDeclarations).map ParseDescriptor) (ParseCommaSeparated rawValues)

/-! ### Quotations and brackets -/

/-- What stands between two quotes. -/
inductive Quoted (quote : Char) : List Char → Prop
  | nil : Quoted quote []
  | char {c : Char} {text : List Char} (hquote : c ≠ quote) (hescape : c ≠ '\\') (htext : Quoted quote text) :
      Quoted quote (c :: text)
  | escape (c : Char) {text : List Char} (htext : Quoted quote text) : Quoted quote ('\\' :: c :: text)

/-- A character that stands for itself between brackets. -/
def Inside (c : Char) : Prop :=
  isQuote c = false ∧ opens c = false ∧ closes c = false

/-- A character that stands for itself outside of brackets. -/
def Outside (delimits : Char → Bool) (c : Char) : Prop :=
  isQuote c = false ∧ opens c = false ∧ delimits c = false

/-- A text of quotations, brackets and `plain` characters. A bracket can be closed by one of another kind. -/
inductive Nested : (Char → Prop) → List Char → Prop
  | nil (plain : Char → Prop) : Nested plain []
  | char {plain : Char → Prop} {c : Char} {text : List Char} (hc : plain c) (htext : Nested plain text) :
      Nested plain (c :: text)
  | quotation {plain : Char → Prop} {quote : Char} {body text : List Char} (hquote : isQuote quote = true)
      (hbody : Quoted quote body) (htext : Nested plain text) : Nested plain (quote :: (body ++ quote :: text))
  | bracket {plain : Char → Prop} {opening closing : Char} {inner text : List Char}
      (hopening : opens opening = true) (hclosing : closes closing = true) (hinner : Nested Inside inner)
      (htext : Nested plain text) : Nested plain (opening :: (inner ++ closing :: text))

theorem Nested.append {plain : Char → Prop} {text text' : List Char} (h : Nested plain text)
    (h' : Nested plain text') : Nested plain (text ++ text') := by
  induction h with
  | nil => exact h'
  | char hc _ ih => exact .char hc (ih h')
  | quotation hquote hbody _ ih =>
    rw [List.cons_append, List.append_assoc, List.cons_append]
    exact .quotation hquote hbody (ih h')
  | bracket hopening hclosing hinner _ _ ih =>
    rw [List.cons_append, List.append_assoc, List.cons_append]
    exact .bracket hopening hclosing hinner (ih h')

theorem Nested.mono {plain plain' : Char → Prop} {text : List Char} (h : Nested plain text)
    (hplain : ∀ c, plain c → plain' c) : Nested plain' text := by
  induction h with
  | nil => exact .nil plain'
  | char hc _ ih => exact .char (hplain _ hc) (ih hplain)
  | quotation hquote hbody _ ih => exact .quotation hquote hbody (ih hplain)
  | bracket hopening hclosing hinner _ _ ih => exact .bracket hopening hclosing hinner (ih hplain)

/-- The text is read before what is found. -/
def precede (text : List Char) (found : List Char × List Char) : List Char × List Char :=
  (text ++ found.1, found.2)

theorem map_precede (text text' : List Char) (found : Option (List Char × List Char)) :
    (found.map (precede text')).map (precede text) = found.map (precede (text ++ text')) := by
  cases found with
  | none => rfl
  | some found => simp only [Option.map_some, precede, List.append_assoc]

theorem scanTo_cons {delimits : Char → Bool} {scan scan' : Scan} {c : Char} {text : List Char}
    (h : scan.turn delimits c = some scan') :
    scanTo delimits scan (c :: text) = (scanTo delimits scan' text).map (precede [c]) := by
  rw [scanTo, h]
  rfl

theorem turn_delimiter {delimits : Char → Bool} {c : Char} (hquote : isQuote c = false) (hopens : opens c = false)
    (hdelimits : delimits c = true) : Scan.start.turn delimits c = none := by
  simp [Scan.turn, Scan.start, hquote, hopens, hdelimits]

theorem turn_escapeCounter {delimits : Char → Bool} {depth : Nat} {c : Char}
    (hc : if depth = 0 then Outside delimits c else Inside c) :
    Scan.turn delimits ⟨depth, .Unquoted, false⟩ c = some ⟨depth, .Unquoted, false⟩ := by
  by_cases hdepth : depth = 0
  · rw [if_pos hdepth] at hc
    obtain ⟨hquote, hopens, hdelimits⟩ := hc
    simp [Scan.turn, hquote, hopens, hdelimits, hdepth]
  · rw [if_neg hdepth] at hc
    obtain ⟨hquote, hopens, hcloses⟩ := hc
    simp [Scan.turn, hquote, hopens, hcloses, hdepth]

/-- The state in a quotation. -/
def quoting (quote : Char) : QuotingState :=
  if quote = '"' then .DoubleQuoted else .SingleQuoted

theorem turn_quoting (delimits : Char → Bool) (depth : Nat) (escaped : Bool) {quote : Char}
    (hquote : isQuote quote = true) (c : Char) :
    Scan.turn delimits ⟨depth, quoting quote, escaped⟩ c =
      if escaped then some ⟨depth, quoting quote, false⟩
      else if c = '\\' then some ⟨depth, quoting quote, true⟩
      else if c = quote then some ⟨depth, .Unquoted, false⟩
      else some ⟨depth, quoting quote, false⟩ := by
  by_cases hdouble : quote = '"'
  · subst hdouble
    cases escaped
    · simp [Scan.turn, quoting]
    · simp [Scan.turn, quoting]
  · obtain rfl : quote = '\'' := by simpa [isQuote, hdouble] using hquote
    cases escaped
    · simp [Scan.turn, quoting]
    · simp [Scan.turn, quoting]

theorem scanTo_quoted (delimits : Char → Bool) (depth : Nat) {quote : Char} (hquote : isQuote quote = true)
    {body : List Char} (hbody : Quoted quote body) (rest : List Char) :
    scanTo delimits ⟨depth, quoting quote, false⟩ (body ++ quote :: rest) =
      (scanTo delimits ⟨depth, .Unquoted, false⟩ rest).map (precede (body ++ [quote])) := by
  have hescape : quote ≠ '\\' := by
    rintro rfl
    cases hquote
  induction hbody with
  | nil =>
    have hturn := turn_quoting delimits depth false hquote quote
    simp only [Bool.false_eq_true, if_false, hescape, if_true] at hturn
    exact scanTo_cons hturn
  | @char c text hc hc' _ ih =>
    have hturn := turn_quoting delimits depth false hquote c
    simp only [Bool.false_eq_true, if_false, hc, hc'] at hturn
    rw [List.cons_append, scanTo_cons hturn, ih, map_precede]
    rfl
  | @escape c text _ ih =>
    have hturn := turn_quoting delimits depth false hquote '\\'
    have hturn' := turn_quoting delimits depth true hquote c
    simp only [Bool.false_eq_true, if_false, if_true] at hturn hturn'
    rw [List.cons_append, List.cons_append, scanTo_cons hturn, scanTo_cons hturn', ih, map_precede, map_precede]
    rfl

/-- The loops read over a text of closed quotations and brackets. -/
theorem scanTo_nested {delimits : Char → Bool} {plain : Char → Prop} {text : List Char} (h : Nested plain text)
    (depth : Nat) (hplain : ∀ c, plain c → if depth = 0 then Outside delimits c else Inside c) (rest : List Char) :
    scanTo delimits ⟨depth, .Unquoted, false⟩ (text ++ rest) =
      (scanTo delimits ⟨depth, .Unquoted, false⟩ rest).map (precede text) := by
  induction h generalizing depth rest with
  | nil => exact Option.map_id'.symm
  | char hc _ ih =>
    rw [List.cons_append, scanTo_cons (turn_escapeCounter (hplain _ hc)), ih depth hplain, map_precede]
    rfl
  | @quotation plain quote body text hquote hbody _ ih =>
    have hturn : Scan.turn delimits ⟨depth, .Unquoted, false⟩ quote = some ⟨depth, quoting quote, false⟩ := by
      simp [Scan.turn, hquote, quoting]
    rw [List.cons_append, List.append_assoc, List.cons_append, scanTo_cons hturn,
      scanTo_quoted delimits depth hquote hbody, ih depth hplain, map_precede, map_precede]
    simp
  | @bracket plain opening closing inner text hopening hclosing _ _ ihinner ih =>
    have hnoquote : isQuote opening = false := by
      simp only [opens, decide_eq_true_eq] at hopening
      obtain rfl | rfl | rfl | rfl := hopening <;> rfl
    have hnoquote' : isQuote closing = false ∧ opens closing = false := by
      simp only [closes, decide_eq_true_eq] at hclosing
      obtain rfl | rfl | rfl | rfl := hclosing <;> exact ⟨rfl, rfl⟩
    have hturn : Scan.turn delimits ⟨depth, .Unquoted, false⟩ opening = some ⟨depth + 1, .Unquoted, false⟩ := by
      simp [Scan.turn, hnoquote, hopening]
    have hturn' : Scan.turn delimits ⟨depth + 1, .Unquoted, false⟩ closing = some ⟨depth, .Unquoted, false⟩ := by
      simp [Scan.turn, hnoquote'.1, hnoquote'.2, hclosing]
    rw [List.cons_append, List.append_assoc, List.cons_append, scanTo_cons hturn,
      ihinner (depth + 1) (fun c hc => hc), scanTo_cons hturn', ih depth hplain, map_precede, map_precede,
      map_precede]
    simp

/-- Up to the delimiter behind a text of closed quotations and brackets. -/
theorem scanTo_delimiter {delimits : Char → Bool} {text : List Char} (h : Nested (Outside delimits) text) {c : Char}
    (hquote : isQuote c = false) (hopens : opens c = false) (hdelimits : delimits c = true) (rest : List Char) :
    scanTo delimits .start (text ++ c :: rest) = some (text, rest) := by
  have hfound : scanTo delimits .start (c :: rest) = some ([], rest) := by
    rw [scanTo, turn_delimiter hquote hopens hdelimits]
  have hscan := scanTo_nested h 0 (fun c hc => by rw [if_pos rfl]; exact hc) (c :: rest)
  rw [Scan.start] at hfound ⊢
  rw [hscan, hfound, Option.map_some, precede, List.append_nil]

theorem scanTo_none {delimits : Char → Bool} {text : List Char} (h : Nested (Outside delimits) text) :
    scanTo delimits .start text = none := by
  have hscan := scanTo_nested h 0 (fun c hc => by rw [if_pos rfl]; exact hc) []
  rw [List.append_nil] at hscan
  exact hscan

/-! ### Lists of values -/

/-- The texts of a macro's arguments, as the preprocessor gives them. -/
def listText (texts : List (List Char)) : List Char :=
  '(' :: ([','].intercalate texts ++ [')'])

theorem parseValues_found {separated : List Char} {found : List Char × List Char}
    (hhead : separated.head? ≠ some ')') (h : scanTo separates .start separated = some found) :
    parseValues separated = TrimmedString found.1 :: parseValues found.2 := by
  have hne : separated ≠ [] := by
    rintro rfl
    cases h
  rw [parseValues, if_neg (by simp [hne, hhead])]
  split
  · rename_i hnone
    rw [h] at hnone
    cases hnone
  · rename_i found' hfound
    rw [h] at hfound
    cases hfound
    rfl

theorem parseValues_close (rest : List Char) : parseValues (')' :: rest) = [] := by
  rw [parseValues, if_pos (.inr rfl)]

/-- The first character of a value does not end the list. -/
theorem Nested.head?_ne {text : List Char} (h : Nested (Outside separates) text) (rest : List Char)
    (hrest : rest.head? ≠ some ')') : (text ++ rest).head? ≠ some ')' := by
  cases h with
  | nil => exact hrest
  | char hc =>
    intro hhead
    cases hhead
    obtain ⟨-, -, hseparates⟩ := hc
    cases hseparates
  | quotation hquote =>
    intro hhead
    cases hhead
    cases hquote
  | bracket hopening =>
    intro hhead
    cases hhead
    cases hopening

theorem parseValues_text (texts : List (List Char)) (h : ∀ text ∈ texts, Nested (Outside separates) text) :
    parseValues ([','].intercalate texts ++ [')']) =
      (if texts.getLast? = some [] then texts.dropLast else texts).map TrimmedString := by
  induction texts with
  | nil => exact parseValues_close []
  | cons text texts ih =>
    obtain ⟨htext, htexts⟩ := List.forall_mem_cons.mp h
    cases texts with
    | nil =>
      rw [List.intercalate_singleton]
      cases text with
      | nil => exact parseValues_close []
      | cons c text =>
        have hhead : ((c :: text) ++ [')']).head? ≠ some ')' := by
          have hne := htext.head?_ne [] (by simp)
          rw [List.append_nil] at hne
          exact hne
        rw [parseValues_found hhead (scanTo_delimiter htext rfl rfl rfl []), parseValues, if_pos (.inl rfl)]
        simp
    | cons text' texts =>
      rw [List.intercalate_cons_cons, List.append_assoc, List.append_assoc, List.singleton_append,
        parseValues_found (htext.head?_ne _ (by simp)) (scanTo_delimiter htext rfl rfl rfl _), ih htexts,
        List.getLast?_cons_cons]
      split
      · rw [List.dropLast_cons_of_ne_nil (List.cons_ne_nil text' texts), List.map_cons]
      · rfl

/-- The values are read back, but for the last if nothing at all is written for it. -/
theorem parseCommaSeparated_listText (texts : List (List Char))
    (h : ∀ text ∈ texts, Nested (Outside separates) text) :
    ParseCommaSeparated (listText texts) =
      (if texts.getLast? = some [] then texts.dropLast else texts).map TrimmedString :=
  parseValues_text texts h

/-! ### White space -/

theorem dropWhile_append_cons {p : Char → Bool} {c : Char} (hc : p c = false) (left right : List Char) :
    (left ++ c :: right).dropWhile p = left.dropWhile p ++ c :: right := by
  induction left with
  | nil => simp [hc]
  | cons c' left ih =>
    rw [List.cons_append, List.dropWhile_cons, List.dropWhile_cons]
    split
    · exact ih
    · rfl

theorem rdropWhile_append_cons {p : Char → Bool} {c : Char} (hc : p c = false) (left right : List Char) :
    (left ++ c :: right).rdropWhile p = left ++ c :: right.rdropWhile p := by
  rw [List.rdropWhile, List.rdropWhile, List.reverse_append, List.reverse_cons, List.append_assoc,
    List.singleton_append, dropWhile_append_cons hc]
  simp

theorem dropWhile_rdropWhile (p : Char → Bool) (text : List Char) :
    (text.rdropWhile p).dropWhile p = (text.dropWhile p).rdropWhile p := by
  have hsplit : text.takeWhile p ++ text.dropWhile p = text := List.takeWhile_append_dropWhile
  have hblank : (text.takeWhile p).dropWhile p = [] :=
    List.dropWhile_eq_nil_iff.mpr fun c hc => List.mem_takeWhile_imp hc
  cases hrest : text.dropWhile p with
  | nil =>
    have hall : text.rdropWhile p = [] :=
      List.rdropWhile_eq_nil_iff.mpr (List.dropWhile_eq_nil_iff.mp hrest)
    rw [hall]
    rfl
  | cons c rest =>
    have hc : p c = false := by
      have hne : text.dropWhile p ≠ [] := by simp [hrest]
      have hhead := List.head_dropWhile_not p hne
      simpa only [hrest, List.head_cons] using hhead
    rw [hrest] at hsplit
    have htrim : (c :: rest).rdropWhile p = c :: rest.rdropWhile p := rdropWhile_append_cons hc [] rest
    rw [htrim, ← hsplit, rdropWhile_append_cons hc, dropWhile_append_cons hc, hblank]
    rfl

theorem trimmedString_dropWhile (text : List Char) :
    TrimmedString (text.dropWhile isBlank) = TrimmedString text := by
  rw [TrimmedString, List.dropWhile_idempotent, TrimmedString]

theorem trimmedString_rdropWhile (text : List Char) :
    TrimmedString (text.rdropWhile isBlank) = TrimmedString text := by
  rw [TrimmedString, dropWhile_rdropWhile, List.rdropWhile_idempotent, TrimmedString]

theorem trimmedString_append_cons {c : Char} (hc : isBlank c = false) (left right : List Char) :
    TrimmedString (left ++ c :: right) = left.dropWhile isBlank ++ c :: right.rdropWhile isBlank := by
  rw [TrimmedString, dropWhile_append_cons hc, rdropWhile_append_cons hc]

/-! ### Declarations -/

theorem scanTo_dropWhile {delimits : Char → Bool} (hdelimits : ∀ c, isBlank c = true → delimits c = false)
    (text : List Char) :
    scanTo delimits .start text =
      (scanTo delimits .start (text.dropWhile isBlank)).map (precede (text.takeWhile isBlank)) := by
  induction text with
  | nil => rfl
  | cons c text ih =>
    rw [List.dropWhile_cons, List.takeWhile_cons]
    by_cases hc : isBlank c
    · have hplain : Outside delimits c := by
        have hcases := hc
        simp only [isBlank, decide_eq_true_eq] at hcases
        obtain rfl | rfl | rfl | rfl := hcases
        all_goals exact ⟨rfl, rfl, hdelimits _ hc⟩
      have hturn : Scan.start.turn delimits c = some .start :=
        turn_escapeCounter (by rw [if_pos rfl]; exact hplain)
      rw [if_pos hc, if_pos hc, scanTo_cons hturn, ih, map_precede]
      rfl
    · rw [if_neg hc, if_neg hc]
      exact Option.map_id'.symm

theorem scanTo_append {delimits : Char → Bool} {scan : Scan} {text : List Char} {found : List Char × List Char}
    (h : scanTo delimits scan text = some found) (rest : List Char) :
    scanTo delimits scan (text ++ rest) = some (found.1, found.2 ++ rest) := by
  induction text generalizing scan found with
  | nil => cases h
  | cons c text ih =>
    rw [List.cons_append]
    rw [scanTo] at h ⊢
    split at h
    · cases h
      rfl
    · obtain ⟨found', hfound, rfl⟩ := Option.map_eq_some_iff.mp h
      rw [ih hfound]
      rfl

/-- A declared parameter, with the text of its default value if it has one. -/
structure Declared where
  declaration : List Char
  default : Option (List Char)

/-- The declaration as it is written. -/
def Declared.text (declared : Declared) : List Char :=
  match declared.default with
  | none => declared.declaration
  | some value => declared.declaration ++ '=' :: value

/-- What a report names. -/
def Declared.descriptor (declared : Declared) : TestParameterDescriptor :=
  ⟨TrimmedString declared.declaration, (declared.default.map TrimmedString).getD []⟩

/-- Whether the delimiters stand in quotations and brackets only. -/
structure Declared.WellFormed (declared : Declared) : Prop where
  declaration : Nested (Outside fun c => separates c || c = '=') declared.declaration
  default : ∀ value, declared.default = some value → Nested (Outside separates) value

theorem Declared.WellFormed.text {declared : Declared} (h : declared.WellFormed) :
    Nested (Outside separates) declared.text := by
  have hdeclaration : Nested (Outside separates) declared.declaration := by
    refine h.declaration.mono fun c hc => ?_
    obtain ⟨hquote, hopens, hdelimits⟩ := hc
    exact ⟨hquote, hopens, (Bool.or_eq_false_iff.mp hdelimits).1⟩
  unfold Declared.text
  split
  · exact hdeclaration
  · rename_i value hvalue
    exact hdeclaration.append (.char ⟨rfl, rfl, rfl⟩ (h.default value hvalue))

theorem parseDescriptor_text {declared : Declared} (h : declared.WellFormed) :
    ParseDescriptor (TrimmedString declared.text) = declared.descriptor := by
  have hplain : Nested (Outside fun c => c = '=') declared.declaration := by
    refine h.declaration.mono fun c hc => ?_
    obtain ⟨hquote, hopens, hdelimits⟩ := hc
    exact ⟨hquote, hopens, (Bool.or_eq_false_iff.mp hdelimits).2⟩
  have hblank : ∀ c, isBlank c = true → decide (c = '=') = false := by
    intro c hc
    simp only [isBlank, decide_eq_true_eq] at hc
    obtain rfl | rfl | rfl | rfl := hc <;> rfl
  obtain ⟨declaration, default⟩ := declared
  cases default with
  | none =>
    have hnone : scanTo (fun c => c = '=') .start (TrimmedString declaration) = none := by
      have hscan := scanTo_none hplain
      rw [scanTo_dropWhile hblank, Option.map_eq_none_iff] at hscan
      by_contra hsome
      obtain ⟨found, hfound⟩ := Option.ne_none_iff_exists'.mp hsome
      -- the blanks behind the declaration hide no delimiter
      obtain ⟨blanks, hblanks⟩ := List.rdropWhile_prefix isBlank (declaration.dropWhile isBlank)
      have hlonger := scanTo_append hfound blanks
      rw [TrimmedString, hblanks, hscan] at hlonger
      cases hlonger
    show ParseDescriptor (TrimmedString declaration) = ⟨TrimmedString declaration, []⟩
    rw [ParseDescriptor, hnone]
  | some value =>
    have htrimmed : TrimmedString (declaration ++ '=' :: value) =
        declaration.dropWhile isBlank ++ '=' :: value.rdropWhile isBlank := trimmedString_append_cons rfl _ _
    have hfound : scanTo (fun c => c = '=') .start (TrimmedString (declaration ++ '=' :: value)) =
        some (declaration.dropWhile isBlank, value.rdropWhile isBlank) := by
      have hscan := scanTo_delimiter hplain (c := '=') rfl rfl rfl (value.rdropWhile isBlank)
      rw [scanTo_dropWhile hblank, dropWhile_append_cons rfl] at hscan
      obtain ⟨found, hfound, hprecede⟩ := Option.map_eq_some_iff.mp hscan
      obtain ⟨hbefore, hbehind⟩ := Prod.mk.inj hprecede
      have hsplit : declaration.takeWhile isBlank ++ declaration.dropWhile isBlank = declaration :=
        List.takeWhile_append_dropWhile
      have htake : (declaration ++ '=' :: value.rdropWhile isBlank).takeWhile isBlank =
          declaration.takeWhile isBlank := by
        rw [List.takeWhile_append]
        split
        · rename_i hall
          rw [List.takeWhile_cons_of_neg (by decide), List.append_nil]
          exact (List.IsPrefix.eq_of_length (List.takeWhile_prefix _) hall).symm
        · rfl
      rw [htake] at hbefore
      rw [htrimmed, hfound]
      have hfirst : found.1 = declaration.dropWhile isBlank := List.append_cancel_left (hbefore.trans hsplit.symm)
      rw [← hfirst, ← hbehind]
    show ParseDescriptor (TrimmedString (declaration ++ '=' :: value)) =
      ⟨TrimmedString declaration, TrimmedString value⟩
    rw [ParseDescriptor, hfound]
    simp only [trimmedString_dropWhile, trimmedString_rdropWhile]

/-! ### Values -/

/-- The values of the parameter `i` of `count`: one at most, but for the last all that are left. -/
def share (count i : Nat) (values : List (List Char)) : List (List Char) :=
  if i + 1 = count then values.drop i else (values.drop i).take 1

/-- The parameter with its share of the values, or with its default value. -/
def TestParameterDescriptor.assign (parameter : TestParameterDescriptor) (share : List (List Char)) :
    TestParameterDescriptor :=
  if share = [] then parameter else { parameter with Value := [',', ' '].intercalate share }

theorem setValue_of_lt {parameters : List TestParameterDescriptor} {i : Nat} (value : List Char)
    (h : i < parameters.length) :
    setValue parameters i value = .ok (parameters.set i { parameters[i] with Value := value }) := by
  rw [setValue, readAt_of_lt h, ok_bind, storeAt_of_lt _ h]

theorem intercalate_concat (sep : List Char) {texts : List (List Char)} (h : texts ≠ []) (text : List Char) :
    sep.intercalate (texts ++ [text]) = sep.intercalate texts ++ sep ++ text := by
  induction texts with
  | nil => exact absurd rfl h
  | cons first texts ih =>
    cases texts with
    | nil => simp
    | cons second texts =>
      have hrest := ih (List.cons_ne_nil second texts)
      rw [List.cons_append] at hrest
      rw [List.cons_append, List.cons_append, List.intercalate_cons_cons, hrest, List.intercalate_cons_cons]
      simp only [List.append_assoc]

theorem variadicText_eq (values : List (List Char)) (straightValues variadicValues : Nat)
    (h : straightValues + variadicValues = values.length) :
    variadicText values straightValues variadicValues = .ok ([',', ' '].intercalate (values.drop straightValues)) := by
  obtain ⟨text, htext, hP⟩ := Succeeds.foldlM_range variadicValues
    (fun text i => do
      let value ← readAt values (straightValues + i)
      .ok ((if i = 0 then text else text ++ [',', ' ']) ++ value))
    [] (fun i text => text = [',', ' '].intercalate ((values.drop straightValues).take i)) rfl (by
      rintro i text hi rfl
      have hlt : straightValues + i < values.length := by omega
      rw [readAt_of_lt hlt, ok_bind]
      refine .ok ?_
      have hlt' : i < (values.drop straightValues).length := by
        rw [List.length_drop]
        omega
      rw [List.take_add_one, List.getElem?_eq_getElem hlt', List.getElem_drop, Option.toList_some]
      by_cases hi0 : i = 0
      · subst hi0
        simp
      · rw [if_neg hi0, intercalate_concat]
        intro hnil
        have hlength := congrArg List.length hnil
        rw [List.length_take, List.length_nil] at hlength
        omega)
  rw [variadicText, htext, hP, List.take_of_length_le]
  rw [List.length_drop]
  omega

/-- The parameters with the first `count` values. -/
def straight (parameters : List TestParameterDescriptor) (values : List (List Char)) (count : Nat) :
    List TestParameterDescriptor :=
  parameters.mapIdx fun i parameter =>
    if i < count then { parameter with Value := values.getD i [] } else parameter

theorem straightValues_eq (parameters : List TestParameterDescriptor) (values : List (List Char)) (count : Nat)
    (hparameters : count ≤ parameters.length) (hvalues : count ≤ values.length) :
    (List.range count).foldlM (fun parameters i => do
      let value ← readAt values i
      setValue parameters i value) parameters = .ok (straight parameters values count) := by
  obtain ⟨result, hresult, rfl⟩ := Succeeds.foldlM_range count
    (fun parameters i => do
      let value ← readAt values i
      setValue parameters i value)
    parameters (fun i s => s = straight parameters values i) (List.ext_getElem? fun i => by simp [straight]) (by
      rintro i s hi rfl
      have hvalue : i < values.length := by omega
      have hparameter : i < (straight parameters values i).length := by
        rw [straight, List.length_mapIdx]
        omega
      rw [readAt_of_lt hvalue, ok_bind, setValue_of_lt _ hparameter]
      refine .ok (List.ext_getElem? fun j => ?_)
      rw [List.getElem?_set]
      simp only [straight, List.getElem?_mapIdx, List.getElem_mapIdx, List.length_mapIdx]
      by_cases hij : i = j
      · subst hij
        have hj : i < parameters.length := by omega
        simp [hj, hvalue]
      · have hlt : j < i + 1 ↔ j < i := by omega
        simp only [hij, if_false, hlt])
  exact hresult

theorem assign_straight {parameters : List TestParameterDescriptor} {values : List (List Char)}
    (h : values.length ≤ parameters.length) :
    straight parameters values values.length =
      parameters.mapIdx fun i parameter => parameter.assign (share parameters.length i values) := by
  refine List.ext_getElem? fun i => ?_
  rw [straight, List.getElem?_mapIdx, List.getElem?_mapIdx]
  by_cases hi : i < values.length
  · have hdrop : values.drop i = values[i] :: values.drop (i + 1) := List.drop_eq_getElem_cons hi
    have hshare : share parameters.length i values = [values[i]] := by
      rw [share, hdrop]
      split
      · have hrest : values.drop (i + 1) = [] := List.drop_eq_nil_of_le (by omega)
        rw [hrest]
      · rfl
    simp [hi, hshare, TestParameterDescriptor.assign]
  · have hshare : share parameters.length i values = [] := by
      rw [share, List.drop_eq_nil_of_le (by omega), List.take_nil, ite_self]
    simp [hi, hshare, TestParameterDescriptor.assign]

theorem assign_variadic {parameters : List TestParameterDescriptor} {values : List (List Char)}
    (hparameters : parameters ≠ []) (h : parameters.length < values.length) :
    setValue (straight parameters values (parameters.length - 1)) (parameters.length - 1)
        ([',', ' '].intercalate (values.drop (parameters.length - 1))) =
      .ok (parameters.mapIdx fun i parameter => parameter.assign (share parameters.length i values)) := by
  have hpos : 0 < parameters.length := List.length_pos_of_ne_nil hparameters
  have hlength : (straight parameters values (parameters.length - 1)).length = parameters.length :=
    List.length_mapIdx
  rw [setValue_of_lt _ (by omega)]
  refine congrArg Except.ok (List.ext_getElem? fun i => ?_)
  simp only [List.getElem?_set, straight, List.getElem?_mapIdx, List.getElem_mapIdx]
  by_cases hlast : parameters.length - 1 = i
  · subst hlast
    have hshare : share parameters.length (parameters.length - 1) values =
        values.drop (parameters.length - 1) := by
      rw [share, if_pos (by omega)]
    have hne : values.drop (parameters.length - 1) ≠ [] := by
      intro hnil
      have hle := List.drop_eq_nil_iff.mp hnil
      omega
    have hlt : parameters.length - 1 < parameters.length := by omega
    simp [hshare, hne, hlt, TestParameterDescriptor.assign]
  · rw [if_neg hlast]
    by_cases hi : i < parameters.length
    · have hvalue : i < values.length := by omega
      have hdrop : values.drop i = values[i] :: values.drop (i + 1) := List.drop_eq_getElem_cons hvalue
      have hshare : share parameters.length i values = [values[i]] := by
        rw [share, if_neg (by omega), hdrop]
        rfl
      have hi' : i < parameters.length - 1 := by omega
      simp [hi, hi', hvalue, hshare, TestParameterDescriptor.assign]
    · rw [List.getElem?_eq_none (by omega)]
      rfl

/-- Without parameters the values are read beyond their end. -/
theorem assignValues_nil {values : List (List Char)} (h : values ≠ []) :
    assignValues [] values = .error .outOfRange := by
  have hpos : 0 < values.length := List.length_pos_of_ne_nil h
  have htext := variadicText_eq values 0 values.length (Nat.zero_add _)
  have hbeyond : variadicText values 0 (values.length + 1) = .error .outOfRange := by
    rw [variadicText] at htext ⊢
    rw [List.range_succ, List.foldlM_append, htext, ok_bind, List.foldlM_cons, readAt,
      List.getElem?_eq_none (by omega)]
    rfl
  have hcases : assignValues [] values = variadicText values 0 (values.length + 1) >>= fun _ => .error .outOfRange := by
    simp [assignValues, hpos]
  rw [hcases, hbeyond, error_bind]

theorem assignValues_eq (parameters : List TestParameterDescriptor) (values : List (List Char)) :
    assignValues parameters values =
      if parameters = [] ∧ values ≠ [] then .error .outOfRange
      else .ok (parameters.mapIdx fun i parameter => parameter.assign (share parameters.length i values)) := by
  by_cases hvariadic : parameters.length < values.length
  · by_cases hparameters : parameters = []
    · subst hparameters
      have hvalues : values ≠ [] := List.ne_nil_of_length_pos hvariadic
      rw [if_pos ⟨rfl, hvalues⟩, assignValues_nil hvalues]
    · have hpos : 0 < parameters.length := List.length_pos_of_ne_nil hparameters
      have hlength : (straight parameters values (parameters.length - 1)).length = parameters.length :=
        List.length_mapIdx
      have hstraight := straightValues_eq parameters values (parameters.length - 1) (by omega) (by omega)
      have htext := variadicText_eq values (parameters.length - 1) (values.length - parameters.length + 1)
        (by omega)
      have hnot : ¬values.length < parameters.length := by omega
      rw [if_neg (fun hnil => hparameters hnil.1), ← assign_variadic hparameters hvariadic, assignValues]
      simp only [if_neg hnot, if_pos (And.intro hvariadic hpos), if_pos hvariadic, hstraight, ok_bind, htext, hlength,
        if_neg hpos.ne', if_pos (Nat.succ_ne_zero _)]
  · have hcondition : ¬(parameters = [] ∧ values ≠ []) := by
      rintro ⟨rfl, hvalues⟩
      exact hvariadic (List.length_pos_of_ne_nil hvalues)
    have hmin : (if values.length < parameters.length then values.length else parameters.length) = values.length := by
      split <;> omega
    have hstraight := straightValues_eq parameters values values.length (by omega) le_rfl
    rw [if_neg hcondition, ← assign_straight (by omega), assignValues]
    simp only [hvariadic, false_and, if_false, hmin, hstraight, ok_bind, ne_eq, not_true_eq_false]

/-- The texts of a benchmark's macros are read back as its parameters, each with its value or its default. -/
theorem testParametersDescriptor_spec (declared : List Declared) (values : List (List Char))
    (hdeclared : ∀ parameter ∈ declared, parameter.WellFormed)
    (hvalues : ∀ value ∈ values, Nested (Outside separates) value)
    (hlast : (declared.map Declared.text).getLast? ≠ some []) (hlast' : values.getLast? ≠ some []) :
    TestParametersDescriptor (listText (declared.map Declared.text)) (listText values) =
      if declared = [] ∧ values ≠ [] then .error .outOfRange
      else .ok (declared.mapIdx fun i parameter =>
        parameter.descriptor.assign (share declared.length i (values.map TrimmedString))) := by
  have htexts : ∀ text ∈ declared.map Declared.text, Nested (Outside separates) text := by
    intro text htext
    obtain ⟨parameter, hparameter, rfl⟩ := List.mem_map.mp htext
    exact (hdeclared parameter hparameter).text
  have hdescriptors : ((declared.map Declared.text).map TrimmedString).map ParseDescriptor =
      declared.map Declared.descriptor := by
    rw [List.map_map, List.map_map]
    exact List.map_congr_left fun parameter hparameter => parseDescriptor_text (hdeclared parameter hparameter)
  rw [TestParametersDescriptor, parseCommaSeparated_listText _ htexts, parseCommaSeparated_listText _ hvalues,
    if_neg hlast, if_neg hlast', hdescriptors, assignValues_eq, List.length_map]
  simp only [List.map_eq_nil_iff, ne_eq]
  congr 2
  refine List.ext_getElem? fun i => ?_
  simp only [List.getElem?_mapIdx, List.getElem?_map, Option.map_map]
  rfl

/-- With the declarations `n` and `s=","` and three values, of which the second takes two. -/
theorem testParametersDescriptor_spec_variadic :
    TestParametersDescriptor (listText (["n".toList, "s=\",\"".toList])) (listText ["1".toList, "2".toList, " 3".toList]) =
      .ok [⟨"n".toList, "1".toList⟩, ⟨"s".toList, "2, 3".toList⟩] := by
  have hquote : Nested (Outside separates) "\",\"".toList := by
    have hbody : Quoted '"' [','] := .char (by decide) (by decide) .nil
    exact .quotation rfl hbody (.nil _)
  have hspec := testParametersDescriptor_spec
    [⟨"n".toList, none⟩, ⟨"s".toList, some "\",\"".toList⟩] ["1".toList, "2".toList, " 3".toList]
    (by
      refine List.forall_mem_cons.mpr ⟨⟨.char ⟨rfl, rfl, rfl⟩ (.nil _), fun value hvalue => by cases hvalue⟩, ?_⟩
      refine List.forall_mem_cons.mpr ⟨⟨.char ⟨rfl, rfl, rfl⟩ (.nil _), fun value hvalue => ?_⟩, by simp⟩
      cases hvalue
      exact hquote)
    (by
      intro value hvalue
      obtain rfl | rfl | rfl : value = "1".toList ∨ value = "2".toList ∨ value = " 3".toList := by
        simpa using hvalue
      · exact .char ⟨rfl, rfl, rfl⟩ (.nil _)
      · exact .char ⟨rfl, rfl, rfl⟩ (.nil _)
      · exact .char ⟨rfl, rfl, rfl⟩ (.char ⟨rfl, rfl, rfl⟩ (.nil _)))
    (by decide) (by decide)
  exact hspec

end BenchmarkLibs.Hayai

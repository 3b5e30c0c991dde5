import Mathlib.Data.Rat.Defs
import Mathlib.Algebra.Order.Field.Rat
import Mathlib.Tactic.Ring

/-!
# Reading JSON

A strict reader of JSON texts, which refuses, as the grammar does, control characters in strings, numbers
with leading zeros and lists with a dangling comma. The only valid texts that it does not read are those
with escaped surrogates. The rules say how what is read of a text follows from what is read of its parts.
-/

namespace Json

inductive Value
  | null
  | bool (b : Bool)
  | number (q : ℚ)
  | string (s : List Char)
  | array (values : List Value)
  | object (members : List (List Char × Value))

def isBlank (c : Char) : Bool :=
  c = ' ' ∨ c = '\t' ∨ c = '\n' ∨ c = '\r'

def skip (text : List Char) : List Char :=
  text.dropWhile isBlank

/-! ### Strings -/

/-- The character that a backslash and `c` stand for. -/
def unescape (c : Char) : Option Char :=
  if c = '"' ∨ c = '\\' ∨ c = '/' then some c
  else if c = 'b' then some '\x08'
  else if c = 'f' then some '\x0c'
  else if c = 'n' then some '\n'
  else if c = 'r' then some '\r'
  else if c = 't' then some '\t'
  else none

def hexDigit (c : Char) : Option Nat :=
  if '0' ≤ c ∧ c ≤ '9' then some (c.toNat - '0'.toNat)
  else if 'a' ≤ c ∧ c ≤ 'f' then some (c.toNat - 'a'.toNat + 10)
  else if 'A' ≤ c ∧ c ≤ 'F' then some (c.toNat - 'A'.toNat + 10)
  else none

/-- The character of a code, unless the code is of a surrogate. -/
def codeChar (digits : List Char) : Option Char := do
  let digits ← digits.mapM hexDigit
  let code := digits.foldl (fun code digit => 16 * code + digit) 0
  if code < 0xd800 ∨ 0xdfff < code then some (.ofNat code) else none

/-- Behind the opening quote. -/
def readString : List Char → Option (List Char × List Char)
  | [] => none
  | '"' :: rest => some ([], rest)
  | '\\' :: 'u' :: a :: b :: c :: d :: rest => do
    let code ← codeChar [a, b, c, d]
    (readString rest).map fun found => (code :: found.1, found.2)
  | '\\' :: c :: rest => do
    let c ← unescape c
    (readString rest).map fun found => (c :: found.1, found.2)
  | c :: rest => if c < ' ' then none else (readString rest).map fun found => (c :: found.1, found.2)

/-! ### Numbers -/

/-- The digits at the front. -/
def readDigits (text : List Char) : Option (List Char × List Char) :=
  let digits := text.takeWhile Char.isDigit
  if digits = [] then none else some (digits, text.dropWhile Char.isDigit)

/-- What follows `mark`, if it stands here. -/
def readPart {α : Type} (mark : Char → Bool) (part : List Char → Option (α × List Char)) (none' : α)
    (text : List Char) : Option (α × List Char) :=
  match text with
  | c :: rest => if mark c then part rest else some (none', text)
  | [] => some (none', text)

def readExponent (text : List Char) : Option (ℤ × List Char) :=
  match text with
  | '-' :: rest => (readDigits rest).map fun found => (-(Nat.ofDigitChars 10 found.1 0 : ℤ), found.2)
  | '+' :: rest => (readDigits rest).map fun found => ((Nat.ofDigitChars 10 found.1 0 : ℤ), found.2)
  | rest => (readDigits rest).map fun found => ((Nat.ofDigitChars 10 found.1 0 : ℤ), found.2)

def readUnsigned (text : List Char) : Option (ℚ × List Char) := do
  let (whole, rest) ← readDigits text
  if whole.head? = some '0' ∧ whole ≠ ['0'] then none
  else do
    let (fraction, rest) ← readPart (fun c => c = '.') readDigits [] rest
    let (exponent, rest) ← readPart (fun c => c = 'e' ∨ c = 'E') readExponent 0 rest
    let digits : ℚ := (Nat.ofDigitChars 10 (whole ++ fraction) 0 : ℕ)
    some (digits * ((10 : ℕ) : ℚ) ^ (exponent - fraction.length), rest)

def readNumber (text : List Char) : Option (ℚ × List Char) :=
  match text with
  | '-' :: rest => (readUnsigned rest).map fun found => (-found.1, found.2)
  | text => readUnsigned text

/-! ### Values -/

section Lists

variable {α : Type}

/-- At least one item, with commas between them; every turn takes a comma. -/
def readItems (item : List Char → Option (α × List Char)) (close : Char) :
    Nat → List Char → Option (List α × List Char)
  | 0, _ => none
  | fuel + 1, text => do
    let (a, rest) ← item text
    match skip rest with
    | [] => none
    | c :: rest =>
      if c = ',' then (readItems item close fuel rest).map fun found => (a :: found.1, found.2)
      else if c = close then some ([a], rest)
      else none

/-- Behind the opening bracket. -/
def readList (item : List Char → Option (α × List Char)) (close : Char) (text : List Char) :
    Option (List α × List Char) :=
  match skip text with
  | [] => none
  | c :: rest => if c = close then some ([], rest) else readItems item close text.length text

end Lists

def readMember (value : List Char → Option (Value × List Char)) (text : List Char) :
    Option ((List Char × Value) × List Char) :=
  match skip text with
  | '"' :: rest => do
    let (key, rest) ← readString rest
    match skip rest with
    | ':' :: rest => (value rest).map fun found => ((key, found.1), found.2)
    | _ => none
  | _ => none

/-- A value in which brackets are nested less than `depth` deep. -/
def readValue : Nat → List Char → Option (Value × List Char)
  | 0, _ => none
  | depth + 1, text =>
    match skip text with
    | '"' :: rest => (readString rest).map fun found => (.string found.1, found.2)
    | '[' :: rest => (readList (readValue depth) ']' rest).map fun found => (.array found.1, found.2)
    | '{' :: rest => (readList (readMember (readValue depth)) '}' rest).map fun found => (.object found.1, found.2)
    | 't' :: 'r' :: 'u' :: 'e' :: rest => some (.bool true, rest)
    | 'f' :: 'a' :: 'l' :: 's' :: 'e' :: rest => some (.bool false, rest)
    | 'n' :: 'u' :: 'l' :: 'l' :: rest => some (.null, rest)
    | text => (readNumber text).map fun found => (.number found.1, found.2)

def read (text : List Char) : Option Value := do
  let (value, rest) ← readValue text.length text
  if skip rest = [] then some value else none

/-! ### Blanks -/

def Blank (text : List Char) : Prop :=
  ∀ c ∈ text, isBlank c = true

instance (text : List Char) : Decidable (Blank text) :=
  text.decidableBAll _

theorem blank_nil : Blank [] :=
  fun _ hc => absurd hc List.not_mem_nil

theorem skip_append {blanks : List Char} (h : Blank blanks) (text : List Char) : skip (blanks ++ text) = skip text :=
  List.dropWhile_append_of_pos h

theorem skip_cons {c : Char} (h : isBlank c = false) (text : List Char) : skip (c :: text) = c :: text :=
  List.dropWhile_cons_of_neg (by simp [h])

/-- What may stand behind a value. -/
def Ends (rest : List Char) : Prop :=
  ∀ c, rest.head? = some c → isBlank c = true ∨ c = ',' ∨ c = ']' ∨ c = '}'

theorem ends_nil : Ends [] := by
  intro c hc
  cases hc

theorem ends_cons {c : Char} (h : isBlank c = true ∨ c = ',' ∨ c = ']' ∨ c = '}') (rest : List Char) :
    Ends (c :: rest) := by
  intro c' hc'
  cases hc'
  exact h

theorem Ends.append {blanks rest : List Char} (hblanks : Blank blanks) (h : Ends rest) : Ends (blanks ++ rest) := by
  cases blanks with
  | nil => exact h
  | cons c blanks => exact ends_cons (.inl (hblanks c List.mem_cons_self)) _

/-! ### What is read of a text -/

section Reads

variable {α β : Type} {item : List Char → Option (α × List Char)} {text : List Char} {result : Option α}

/-- Whatever follows, `result` is read of the text, or nothing is, and only blanks are passed over behind it. -/
def Reads (item : List Char → Option (α × List Char)) (text : List Char) (result : Option α) : Prop :=
  ∀ rest, Ends rest → match result with
    | none => item (text ++ rest) = none
    | some a => ∃ rest', item (text ++ rest) = some (a, rest') ∧ skip rest' = skip rest

theorem Reads.append_blank (h : Reads item text result) {blanks : List Char} (hblanks : Blank blanks) :
    Reads item (text ++ blanks) result := by
  intro rest hrest
  have hread := h (blanks ++ rest) (hrest.append hblanks)
  rw [← List.append_assoc] at hread
  cases result with
  | none => exact hread
  | some a =>
    obtain ⟨rest', hitem, hskip⟩ := hread
    exact ⟨rest', hitem, hskip.trans (skip_append hblanks rest)⟩

theorem readItems_cons (close : Char) (fuel : Nat) (text : List Char) :
    readItems item close (fuel + 1) text = (item text).bind fun found =>
      match skip found.2 with
      | [] => none
      | c :: rest =>
        if c = ',' then (readItems item close fuel rest).map fun more => (found.1 :: more.1, more.2)
        else if c = close then some ([found.1], rest)
        else none := by
  rw [readItems]
  rfl

/-- A list is read if all its items are. -/
theorem readItems_intercalate {close : Char} (hclose : close = ']' ∨ close = '}') {texts : β → List Char}
    {results : β → Option α} {xs : List β} (hne : xs ≠ []) (h : ∀ x ∈ xs, Reads item (texts x) (results x))
    {fuel : Nat} (hfuel : xs.length ≤ fuel) {blanks : List Char} (hblanks : Blank blanks) (rest : List Char) :
    readItems item close fuel ([','].intercalate (xs.map texts) ++ (blanks ++ close :: rest)) =
      (xs.mapM results).map fun as => (as, rest) := by
  induction xs generalizing fuel with
  | nil => exact absurd rfl hne
  | cons x xs ih =>
    obtain ⟨hx, hxs⟩ := List.forall_mem_cons.mp h
    have hcloseComma : close ≠ ',' := by
      rintro rfl
      simp at hclose
    have hcloseBlank : isBlank close = false := by
      obtain rfl | rfl := hclose <;> rfl
    obtain ⟨fuel, rfl⟩ : ∃ fuel', fuel = fuel' + 1 := ⟨fuel - 1, by rw [List.length_cons] at hfuel; omega⟩
    rw [readItems_cons, List.mapM_cons]
    cases xs with
    | nil =>
      rw [List.map_cons, List.map_nil, List.intercalate_singleton]
      have hread := hx (blanks ++ close :: rest) (Ends.append hblanks (ends_cons (.inr (.inr hclose)) rest))
      cases hresult : results x with
      | none =>
        rw [hresult] at hread
        rw [hread]
        rfl
      | some a =>
        rw [hresult] at hread
        obtain ⟨rest', hitem, hskip⟩ := hread
        rw [hitem, Option.bind_some, hskip, skip_append hblanks, skip_cons hcloseBlank]
        simp [hcloseComma]
    | cons x' xs =>
      rw [List.map_cons, List.map_cons, List.intercalate_cons_cons, ← List.map_cons, List.append_assoc,
        List.append_assoc, List.singleton_append]
      have hread := hx (',' :: ([','].intercalate ((x' :: xs).map texts) ++ (blanks ++ close :: rest)))
        (ends_cons (.inr (.inl rfl)) _)
      cases hresult : results x with
      | none =>
        rw [hresult] at hread
        rw [hread]
        rfl
      | some a =>
        rw [hresult] at hread
        obtain ⟨rest', hitem, hskip⟩ := hread
        have hless : (x' :: xs).length ≤ fuel := by
          rw [List.length_cons] at hfuel
          omega
        have hrest := ih (List.cons_ne_nil x' xs) hxs hless
        rw [hitem, Option.bind_some, hskip, skip_cons rfl]
        simp only [if_true, hrest]
        cases (x' :: xs).mapM results with
        | none => rfl
        | some as => rfl

theorem length_le_intercalate (texts : List (List Char)) {rest : List Char} (h : rest ≠ []) :
    texts.length ≤ ([','].intercalate texts ++ rest).length := by
  have hpos := List.length_pos_iff.mpr h
  induction texts with
  | nil => exact Nat.zero_le _
  | cons text texts ih =>
    cases texts with
    | nil =>
      simp only [List.intercalate_singleton, List.length_append, List.length_cons, List.length_nil]
      omega
    | cons text' texts =>
      rw [List.intercalate_cons_cons]
      simp only [List.length_append, List.length_cons, List.length_nil] at ih ⊢
      omega

/-- Whether something other than `close` comes first. -/
def Starts (close : Char) (text : List Char) : Prop :=
  ∃ c rest, skip text = c :: rest ∧ c ≠ close

theorem Starts.append {close : Char} {text : List Char} (h : Starts close text) (rest : List Char) :
    Starts close (text ++ rest) := by
  obtain ⟨c, text', hskip, hc⟩ := h
  refine ⟨c, text' ++ rest, ?_, hc⟩
  have hne : skip text ≠ [] := by simp [hskip]
  rw [skip, List.dropWhile_append, if_neg (by simpa [skip] using hne)]
  show skip text ++ rest = _
  rw [hskip]
  rfl

theorem readList_nil {close : Char} (hclose : close = ']' ∨ close = '}') {blanks : List Char}
    (hblanks : Blank blanks) (rest : List Char) :
    readList item close (blanks ++ close :: rest) = some ([], rest) := by
  have hcloseBlank : isBlank close = false := by
    obtain rfl | rfl := hclose <;> rfl
  rw [readList, skip_append hblanks, skip_cons hcloseBlank]
  simp

theorem readList_intercalate {close : Char} (hclose : close = ']' ∨ close = '}') {texts : β → List Char}
    {results : β → Option α} {xs : List β} (hne : xs ≠ []) (hstarts : ∀ x ∈ xs, Starts close (texts x))
    (h : ∀ x ∈ xs, Reads item (texts x) (results x)) {blanks : List Char} (hblanks : Blank blanks) (rest : List Char) :
    readList item close ([','].intercalate (xs.map texts) ++ (blanks ++ close :: rest)) =
      (xs.mapM results).map fun as => (as, rest) := by
  have hfirst : Starts close ([','].intercalate (xs.map texts) ++ (blanks ++ close :: rest)) := by
    cases xs with
    | nil => exact absurd rfl hne
    | cons x xs =>
      have hx := hstarts x List.mem_cons_self
      cases xs with
      | nil =>
        rw [List.map_cons, List.map_nil, List.intercalate_singleton]
        exact hx.append _
      | cons x' xs =>
        rw [List.map_cons, List.map_cons, List.intercalate_cons_cons, List.append_assoc, List.append_assoc]
        exact hx.append _
  obtain ⟨c, rest', hskip, hc⟩ := hfirst
  have hfuel := length_le_intercalate (xs.map texts) (List.append_ne_nil_of_right_ne_nil blanks (List.cons_ne_nil close rest))
  rw [List.length_map] at hfuel
  rw [readList, hskip]
  simp only [if_neg hc]
  exact readItems_intercalate hclose hne h hfuel hblanks rest

end Reads

/-! ### Strings and numbers -/

theorem readString_char {c : Char} (hquote : c ≠ '"') (hescape : c ≠ '\\') (rest : List Char) :
    readString (c :: rest) =
      if c < ' ' then none else (readString rest).map fun found => (c :: found.1, found.2) := by
  rw [readString]
  · exact hquote
  · rintro a b c' d rest' rfl
    exact absurd rfl hescape
  · rintro c' rest' rfl
    exact absurd rfl hescape

/-- Whether a string can stand between quotes as it is. -/
def Plain (s : List Char) : Prop :=
  ∀ c ∈ s, c ≠ '"' ∧ c ≠ '\\' ∧ ¬c < ' '

instance (s : List Char) : Decidable (Plain s) :=
  s.decidableBAll _

theorem readString_plain {s : List Char} (h : Plain s) (rest : List Char) :
    readString (s ++ '"' :: rest) = some (s, rest) := by
  induction s with
  | nil => rfl
  | cons c s ih =>
    obtain ⟨⟨hquote, hescape, hcontrol⟩, hs⟩ := List.forall_mem_cons.mp h
    rw [List.cons_append, readString_char hquote hescape, if_neg hcontrol, ih hs]
    rfl

theorem readDigits_append {digits rest : List Char} (hne : digits ≠ []) (h : ∀ c ∈ digits, c.isDigit = true)
    (hrest : ∀ c, rest.head? = some c → c.isDigit = false) :
    readDigits (digits ++ rest) = some (digits, rest) := by
  have htake : rest.takeWhile Char.isDigit = [] := by
    cases rest with
    | nil => rfl
    | cons c rest => rw [List.takeWhile_cons_of_neg (by simp [hrest c rfl])]
  have hdrop : rest.dropWhile Char.isDigit = rest := by
    cases rest with
    | nil => rfl
    | cons c rest => rw [List.dropWhile_cons_of_neg (by simp [hrest c rfl])]
  rw [readDigits, List.takeWhile_append_of_pos h, List.dropWhile_append_of_pos h, htake, hdrop, List.append_nil]
  exact if_neg hne

theorem Ends.not {rest : List Char} (h : Ends rest) {p : Char → Bool} (hp : ∀ c, p c = true →
    isBlank c = false ∧ c ≠ ',' ∧ c ≠ ']' ∧ c ≠ '}') (c : Char) (hc : rest.head? = some c) : p c = false := by
  by_contra htrue
  obtain ⟨hblank, hcomma, hbracket, hbrace⟩ := hp c (by simpa using htrue)
  obtain hblank' | hcomma' | hbracket' | hbrace' := h c hc
  · rw [hblank] at hblank'
    cases hblank'
  · exact hcomma hcomma'
  · exact hbracket hbracket'
  · exact hbrace hbrace'

theorem isDigit_eq {c : Char} (h : c.isDigit = true) :
    isBlank c = false ∧ c ≠ ',' ∧ c ≠ ']' ∧ c ≠ '}' := by
  have hblank : isBlank c = false := by
    by_contra hblank
    simp only [isBlank, Bool.not_eq_false, decide_eq_true_eq] at hblank
    obtain rfl | rfl | rfl | rfl := hblank
    all_goals cases h
  refine ⟨hblank, ?_, ?_, ?_⟩
  all_goals
    rintro rfl
    cases h

theorem readPart_none {γ : Type} {mark : Char → Bool} {part : List Char → Option (γ × List Char)} {none' : γ}
    {text : List Char} (h : ∀ c, text.head? = some c → mark c = false) :
    readPart mark part none' text = some (none', text) := by
  cases text with
  | nil => rfl
  | cons c text => rw [readPart, h c rfl, if_neg Bool.false_ne_true]

/-- Without zeros in front. -/
theorem head?_toDigits (n : ℕ) (h : n ≠ 0) : (Nat.toDigits 10 n).head? ≠ some '0' := by
  induction n using Nat.strong_induction_on with
  | _ n ih =>
    by_cases hlt : n < 10
    · have hdigit : ∀ n < 10, n ≠ 0 → n.digitChar ≠ '0' := by decide
      rw [Nat.toDigits_of_lt_base hlt, List.head?_cons]
      exact fun hzero => hdigit n hlt h (Option.some.inj hzero)
    · have hpos : n / 10 ≠ 0 := by omega
      have hhead := ih (n / 10) (by omega) hpos
      rw [Nat.toDigits_of_base_le (by decide) (by omega)]
      obtain ⟨c, digits, hcons⟩ := List.exists_cons_of_ne_nil (Nat.toDigits_ne_nil (n := n / 10) (b := 10))
      rw [hcons] at hhead ⊢
      exact hhead

theorem toDigits_canonical (n : ℕ) :
    ¬((Nat.toDigits 10 n).head? = some '0' ∧ Nat.toDigits 10 n ≠ ['0']) := by
  rintro ⟨hhead, hne⟩
  by_cases h : n = 0
  · subst h
    exact hne (Nat.toDigits_zero 10)
  · exact head?_toDigits n h hhead

theorem isDigit_toDigits (n : ℕ) (c : Char) (hc : c ∈ Nat.toDigits 10 n) : c.isDigit = true :=
  Nat.isDigit_of_mem_toDigits (by decide) (by decide) hc

theorem readUnsigned_nat (n : ℕ) : Reads readUnsigned (Nat.toDigits 10 n) (some (n : ℚ)) := by
  intro rest hrest
  refine ⟨rest, ?_, rfl⟩
  have hdigits : readDigits (Nat.toDigits 10 n ++ rest) = some (Nat.toDigits 10 n, rest) :=
    readDigits_append Nat.toDigits_ne_nil (isDigit_toDigits n) (hrest.not fun c => isDigit_eq)
  have hfraction : readPart (fun c => c = '.') readDigits [] rest = some ([], rest) :=
    readPart_none (hrest.not fun c hc => by
      obtain rfl := of_decide_eq_true hc
      decide)
  have hexponent : readPart (fun c => c = 'e' ∨ c = 'E') readExponent 0 rest = some (0, rest) :=
    readPart_none (hrest.not fun c hc => by
      obtain rfl | rfl := of_decide_eq_true hc
      all_goals decide)
  rw [readUnsigned]
  simp only [hdigits, Option.bind_eq_bind, Option.bind_some, if_neg (toDigits_canonical n), hfraction, hexponent,
    List.append_nil, List.length_nil, Nat.ofDigitChars_ten_toDigits]
  simp

theorem readUnsigned_decimal (whole : ℕ) {fraction : List Char} (hne : fraction ≠ [])
    (hdigits : ∀ c ∈ fraction, c.isDigit = true) :
    Reads readUnsigned (Nat.toDigits 10 whole ++ '.' :: fraction)
      (some (whole + (Nat.ofDigitChars 10 fraction 0 : ℕ) / ((10 : ℕ) : ℚ) ^ fraction.length)) := by
  intro rest hrest
  refine ⟨rest, ?_, rfl⟩
  have hwhole : readDigits (Nat.toDigits 10 whole ++ '.' :: (fraction ++ rest)) =
      some (Nat.toDigits 10 whole, '.' :: (fraction ++ rest)) :=
    readDigits_append Nat.toDigits_ne_nil (isDigit_toDigits whole) (by
      intro c hc
      cases hc
      rfl)
  have hfraction : readPart (fun c => c = '.') readDigits [] ('.' :: (fraction ++ rest)) = some (fraction, rest) :=
    readDigits_append hne hdigits (hrest.not fun c => isDigit_eq)
  have hexponent : readPart (fun c => c = 'e' ∨ c = 'E') readExponent 0 rest = some (0, rest) :=
    readPart_none (hrest.not fun c hc => by
      obtain rfl | rfl := of_decide_eq_true hc
      all_goals decide)
  have hvalue : ((Nat.ofDigitChars 10 (Nat.toDigits 10 whole ++ fraction) 0 : ℕ) : ℚ) *
      ((10 : ℕ) : ℚ) ^ (0 - (fraction.length : ℤ)) =
      whole + (Nat.ofDigitChars 10 fraction 0 : ℕ) / ((10 : ℕ) : ℚ) ^ fraction.length := by
    have hten : ((10 : ℕ) : ℚ) ^ fraction.length ≠ 0 := pow_ne_zero _ (by norm_num)
    rw [Nat.ofDigitChars_append, Nat.ofDigitChars_ten_toDigits, Nat.ofDigitChars_eq_ofDigitChars_zero, zero_sub,
      zpow_neg, zpow_natCast, ← div_eq_mul_inv, Nat.cast_add, Nat.cast_mul, Nat.cast_pow, add_div,
      mul_div_cancel_left₀ _ hten]
  rw [List.append_assoc, List.cons_append, readUnsigned]
  simp only [hwhole, Option.bind_eq_bind, Option.bind_some, if_neg (toDigits_canonical whole), hfraction, hexponent,
    hvalue]

/-- How a stream prints an integer. -/
def intText (n : ℤ) : List Char :=
  if n < 0 then '-' :: Nat.toDigits 10 n.natAbs else Nat.toDigits 10 n.natAbs

theorem readNumber_unsigned {c : Char} (h : c ≠ '-') (text : List Char) :
    readNumber (c :: text) = readUnsigned (c :: text) := by
  rw [readNumber]
  rintro rest hrest
  cases hrest
  exact absurd rfl h

theorem toDigits_cons (n : ℕ) : ∃ c digits, Nat.toDigits 10 n = c :: digits ∧ c.isDigit = true := by
  obtain ⟨c, digits, hcons⟩ := List.exists_cons_of_ne_nil (Nat.toDigits_ne_nil (n := n) (b := 10))
  refine ⟨c, digits, hcons, isDigit_toDigits n c ?_⟩
  rw [hcons]
  exact List.mem_cons_self

/-! ### Values -/

section Values

variable {depth : ℕ} {text : List Char}

theorem readValue_blank {blanks : List Char} (h : Blank blanks) (text : List Char) :
    readValue depth (blanks ++ text) = readValue depth text := by
  cases depth with
  | zero => rfl
  | succ depth => rw [readValue, readValue, skip_append h]

theorem Reads.blank_append {result : Option Value} (h : Reads (readValue depth) text result) {blanks : List Char}
    (hblanks : Blank blanks) : Reads (readValue depth) (blanks ++ text) result := by
  intro rest hrest
  rw [List.append_assoc, readValue_blank hblanks]
  exact h rest hrest

theorem readValue_number {c : Char} (h : c.isDigit = true ∨ c = '-') (text : List Char) :
    readValue (depth + 1) (c :: text) = (readNumber (c :: text)).map fun found => (.number found.1, found.2) := by
  have hblank : isBlank c = false := by
    obtain hdigit | rfl := h
    · exact (isDigit_eq hdigit).1
    · rfl
  rw [readValue, skip_cons hblank]
  split
  all_goals first
    | rfl
    | (rename_i heq
       cases heq
       obtain hdigit | hminus := h
       · cases hdigit
       · cases hminus)

theorem reads_unsigned {q : ℚ} {c : Char} (hc : c.isDigit = true) (h : Reads readUnsigned (c :: text) (some q)) :
    Reads (readValue (depth + 1)) (c :: text) (some (.number q)) := by
  intro rest hrest
  obtain ⟨rest', hread, hskip⟩ := h rest hrest
  have hminus : c ≠ '-' := by
    rintro rfl
    cases hc
  refine ⟨rest', ?_, hskip⟩
  rw [List.cons_append] at hread ⊢
  rw [readValue_number (.inl hc), readNumber_unsigned hminus, hread]
  rfl

theorem reads_nat (depth n : ℕ) : Reads (readValue (depth + 1)) (Nat.toDigits 10 n) (some (.number n)) := by
  obtain ⟨c, digits, hcons, hc⟩ := toDigits_cons n
  have hread := readUnsigned_nat n
  rw [hcons] at hread ⊢
  exact reads_unsigned hc hread

theorem reads_decimal (depth whole : ℕ) {fraction : List Char} (hne : fraction ≠ [])
    (hdigits : ∀ c ∈ fraction, c.isDigit = true) :
    Reads (readValue (depth + 1)) (Nat.toDigits 10 whole ++ '.' :: fraction)
      (some (.number (whole + (Nat.ofDigitChars 10 fraction 0 : ℕ) / ((10 : ℕ) : ℚ) ^ fraction.length))) := by
  obtain ⟨c, digits, hcons, hc⟩ := toDigits_cons whole
  have hread := readUnsigned_decimal whole hne hdigits
  rw [hcons, List.cons_append] at hread ⊢
  exact reads_unsigned hc hread

theorem reads_int (n : ℤ) : Reads (readValue (depth + 1)) (intText n) (some (.number n)) := by
  by_cases hneg : n < 0
  · rw [intText, if_pos hneg]
    intro rest hrest
    obtain ⟨rest', hread, hskip⟩ := readUnsigned_nat n.natAbs rest hrest
    refine ⟨rest', ?_, hskip⟩
    have hvalue : -((n.natAbs : ℕ) : ℚ) = n := by
      have hint : ((n.natAbs : ℕ) : ℤ) = -n := by omega
      rw [← Int.cast_natCast, hint, Int.cast_neg, neg_neg]
    rw [List.cons_append, readValue_number (.inr rfl), readNumber, hread, Option.map_some, Option.map_some, hvalue]
  · rw [intText, if_neg hneg]
    have hvalue : ((n.natAbs : ℕ) : ℚ) = n := by
      have hint : ((n.natAbs : ℕ) : ℤ) = n := by omega
      rw [← Int.cast_natCast, hint]
    have hread := reads_nat depth n.natAbs
    rwa [hvalue] at hread

theorem reads_bool (b : Bool) :
    Reads (readValue (depth + 1)) (if b then ['t', 'r', 'u', 'e'] else ['f', 'a', 'l', 's', 'e']) (some (.bool b)) := by
  intro rest _
  cases b with
  | false => exact ⟨rest, rfl, rfl⟩
  | true => exact ⟨rest, rfl, rfl⟩

theorem readValue_string (depth : ℕ) (body rest : List Char) :
    readValue (depth + 1) ('"' :: (body ++ ['"']) ++ rest) =
      (readString (body ++ '"' :: rest)).map fun found => (.string found.1, found.2) := by
  rw [List.cons_append, List.append_assoc]
  rfl

/-- Between its quotes a string is read as `body` is. -/
theorem reads_string (depth : ℕ) {body : List Char} {result : Option (List Char)}
    (h : ∀ rest, readString (body ++ '"' :: rest) = result.map fun s => (s, rest)) :
    Reads (readValue (depth + 1)) ('"' :: (body ++ ['"'])) (result.map .string) := by
  intro rest _
  have hread := readValue_string depth body rest
  rw [h] at hread
  cases result with
  | none => exact hread
  | some s => exact ⟨rest, hread, rfl⟩

theorem readMember_append (depth : ℕ) {key : List Char} (hkey : Plain key) {blanks : List Char} (hblanks : Blank blanks)
    (text rest : List Char) :
    readMember (readValue depth) (blanks ++ '"' :: (key ++ '"' :: ':' :: text) ++ rest) =
      (readValue depth (text ++ rest)).map fun found => ((key, found.1), found.2) := by
  rw [readMember, List.append_assoc, skip_append hblanks, List.cons_append, skip_cons rfl]
  show ((readString ((key ++ '"' :: ':' :: text) ++ rest)).bind _) = _
  rw [List.append_assoc, List.cons_append, readString_plain hkey]
  rfl

theorem reads_member {key : List Char} (hkey : Plain key) {result : Option Value} {blanks : List Char}
    (hblanks : Blank blanks) (h : Reads (readValue depth) text result) :
    Reads (readMember (readValue depth)) (blanks ++ '"' :: (key ++ '"' :: ':' :: text))
      (result.map fun value => (key, value)) := by
  intro rest hrest
  have hread := readMember_append depth hkey hblanks text rest
  have hvalue := h rest hrest
  cases result with
  | none =>
    rw [hread, hvalue]
    rfl
  | some value =>
    obtain ⟨rest', hitem, hskip⟩ := hvalue
    exact ⟨rest', by rw [hread, hitem]; rfl, hskip⟩

theorem starts_member (key : List Char) {blanks : List Char} (hblanks : Blank blanks) (text : List Char) :
    Starts '}' (blanks ++ '"' :: (key ++ '"' :: ':' :: text)) := by
  refine ⟨'"', key ++ '"' :: ':' :: text, ?_, by decide⟩
  rw [skip_append hblanks, skip_cons rfl]

/-- A list of values or of members, between its brackets. -/
theorem reads_list {α β : Type} {item : List Char → Option (α × List Char)} {texts : β → List Char}
    {results : β → Option α} {opening close : Char} {make : List α → Value}
    (hopening : opening = '[' ∧ close = ']' ∨ opening = '{' ∧ close = '}')
    (hmake : ∀ text, readValue (depth + 1) (opening :: text) =
      (readList item close text).map fun found => (make found.1, found.2))
    {xs : List β} (hstarts : ∀ x ∈ xs, Starts close (texts x)) (h : ∀ x ∈ xs, Reads item (texts x) (results x)) :
    Reads (readValue (depth + 1)) (opening :: ([','].intercalate (xs.map texts) ++ [close]))
      ((xs.mapM results).map make) := by
  intro rest _
  have hclose : close = ']' ∨ close = '}' := hopening.imp And.right And.right
  have hread : readList item close ([','].intercalate (xs.map texts) ++ close :: rest) =
      (xs.mapM results).map fun as => (as, rest) := by
    cases xs with
    | nil => exact readList_nil hclose blank_nil rest
    | cons x xs => exact readList_intercalate hclose (List.cons_ne_nil x xs) hstarts h blank_nil rest
  rw [List.cons_append, List.append_assoc, List.singleton_append, hmake, hread]
  cases xs.mapM results with
  | none => rfl
  | some as => exact ⟨rest, rfl, rfl⟩

theorem reads_array {β : Type} {texts : β → List Char} {results : β → Option Value} {xs : List β}
    (hstarts : ∀ x ∈ xs, Starts ']' (texts x)) (h : ∀ x ∈ xs, Reads (readValue depth) (texts x) (results x)) :
    Reads (readValue (depth + 1)) ('[' :: ([','].intercalate (xs.map texts) ++ [']']))
      ((xs.mapM results).map .array) :=
  reads_list (.inl ⟨rfl, rfl⟩) (fun _ => rfl) hstarts h

theorem reads_object {β : Type} (depth : ℕ) (texts : β → List Char) (results : β → Option (List Char × Value)) (xs : List β)
    (hstarts : ∀ x ∈ xs, Starts '}' (texts x))
    (h : ∀ x ∈ xs, Reads (readMember (readValue depth)) (texts x) (results x)) :
    Reads (readValue (depth + 1)) ('{' :: ([','].intercalate (xs.map texts) ++ ['}']))
      ((xs.mapM results).map .object) :=
  reads_list (.inr ⟨rfl, rfl⟩) (fun _ => rfl) hstarts h

theorem mapM_ite {α β : Type} (readable : β → Bool) (value : β → α) (xs : List β) :
    (xs.mapM fun x => if readable x then some (value x) else none) =
      if ∀ x ∈ xs, readable x = true then some (xs.map value) else none := by
  induction xs with
  | nil => simp
  | cons x xs ih =>
    rw [List.mapM_cons, ih]
    simp only [List.forall_mem_cons]
    by_cases hx : readable x
    · by_cases hxs : ∀ x ∈ xs, readable x = true
      · rw [if_pos hx, if_pos hxs, if_pos ⟨hx, hxs⟩]
        rfl
      · rw [if_pos hx, if_neg hxs, if_neg fun hall => hxs hall.2]
        rfl
    · have hall : ¬(readable x = true ∧ ∀ x ∈ xs, readable x = true) := fun hall => hx hall.1
      rw [if_neg hx, if_neg hall]
      rfl

theorem reads_elements {β : Type} (depth : ℕ) (texts : β → List Char) (readable : β → Bool) (value : β → Value) (xs : List β)
    (hstarts : ∀ x ∈ xs, Starts ']' (texts x))
    (h : ∀ x ∈ xs, Reads (readValue depth) (texts x) (if readable x then some (value x) else none)) :
    Reads (readValue (depth + 1)) ('[' :: ([','].intercalate (xs.map texts) ++ [']']))
      (if ∀ x ∈ xs, readable x = true then some (.array (xs.map value)) else none) := by
  have hread := reads_array hstarts h
  rw [mapM_ite] at hread
  split at hread
  · rename_i hall
    rwa [if_pos hall]
  · rename_i hall
    rwa [if_neg hall]

theorem reads_empty {blanks : List Char} (h : Blank blanks) :
    Reads (readValue (depth + 1)) ('[' :: (blanks ++ [']'])) (some (.array [])) := by
  intro rest _
  have hread : readList (readValue depth) ']' (blanks ++ ']' :: rest) = some ([], rest) := readList_nil (.inl rfl) h rest
  refine ⟨rest, ?_, rfl⟩
  rw [List.cons_append, List.append_assoc, List.singleton_append]
  show (readList (readValue depth) ']' (blanks ++ ']' :: rest)).map _ = _
  rw [hread]
  rfl

/-- A member of an object, with the blanks before it, and what is read of its text if that is readable. -/
structure Member where
  before : List Char
  key : List Char
  text : List Char
  readable : Bool
  value : Value

def Member.written (member : Member) : List Char :=
  member.before ++ '"' :: (member.key ++ '"' :: ':' :: member.text)

structure Member.ReadsAt (depth : ℕ) (member : Member) : Prop where
  before : Blank member.before
  key : Plain member.key
  text : Reads (readValue depth) member.text (if member.readable then some member.value else none)

theorem reads_members (depth : ℕ) (members : List Member) (h : ∀ member ∈ members, member.ReadsAt depth) :
    Reads (readValue (depth + 1)) ('{' :: ([','].intercalate (members.map Member.written) ++ ['}']))
      (if ∀ member ∈ members, member.readable = true
        then some (.object (members.map fun member => (member.key, member.value))) else none) := by
  have hread := reads_object depth Member.written
    (fun member => if member.readable then some (member.key, member.value) else none) members
    (fun member hmember => starts_member member.key (h member hmember).before member.text)
    (by
      intro member hmember
      have hmemberReads := reads_member (h member hmember).key (h member hmember).before (h member hmember).text
      cases hreadable : member.readable with
      | false => simpa [hreadable, Member.written] using hmemberReads
      | true => simpa [hreadable, Member.written] using hmemberReads)
  rw [mapM_ite] at hread
  split at hread
  · rename_i hall
    rwa [if_pos hall]
  · rename_i hall
    rwa [if_neg hall]

theorem read_eq {text : List Char} {result : Option Value} (h : Reads (readValue text.length) text result) :
    read text = result := by
  have hread := h [] ends_nil
  rw [List.append_nil] at hread
  cases result with
  | none =>
    rw [read, hread]
    rfl
  | some value =>
    obtain ⟨rest, hvalue, hskip⟩ := hread
    rw [read, hvalue]
    show (if skip rest = [] then some value else none) = some value
    exact if_pos hskip

end Values

end Json

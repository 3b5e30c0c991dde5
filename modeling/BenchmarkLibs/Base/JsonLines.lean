import BenchmarkLibs.Base.Json

/-!
# Reading JSON laid out in lines

In a text that is broken into lines behind its values, a string cannot extend over the end of its line,
whatever stands in it. So a writer that puts strings there as they are is read as it means to be exactly if
none of the strings had to be escaped.
-/

namespace Json

section Reads

variable {α β : Type} {item : List Char → Option (α × List Char)} {text rest : List Char} {good : Prop} {a : α}

/-- What stands behind a value is the end of the line, perhaps after a comma. -/
def LineEnds (rest : List Char) : Prop :=
  ∃ rest', rest = '\n' :: rest' ∨ rest = ',' :: '\n' :: rest'

theorem LineEnds.ends (h : LineEnds rest) : Ends rest := by
  obtain ⟨rest', rfl | rfl⟩ := h
  · exact ends_cons (.inl rfl) rest'
  · exact ends_cons (.inr (.inl rfl)) _

/-- `a` is read of the text if it is good, and something else or nothing at all if it is not. -/
structure ReadsIff (item : List Char → Option (α × List Char)) (good : Prop) (text : List Char) (a : α) : Prop where
  reads : good → Reads item text (some a)
  misreads : ¬good → ∀ rest, LineEnds rest → ∀ rest', item (text ++ rest) ≠ some (a, rest')

theorem Reads.readsIff (h : Reads item text (some a)) : ReadsIff item True text a :=
  ⟨fun _ => h, fun hnot => absurd trivial hnot⟩

theorem ReadsIff.of_iff {good' : Prop} (h : ReadsIff item good text a) (hgood : good ↔ good') :
    ReadsIff item good' text a := by
  rwa [propext hgood] at h

theorem readItems_eq_some {close : Char} {fuel : Nat} {as : List α} (h : readItems item close fuel text = some (as, rest)) :
    ∃ a behind as', item text = some (a, behind) ∧ as = a :: as' ∧ (as' = [] ∨
      ∃ fuel' text', skip behind = ',' :: text' ∧ readItems item close fuel' text' = some (as', rest)) := by
  cases fuel with
  | zero => cases h
  | succ fuel =>
    rw [readItems_cons] at h
    obtain ⟨⟨a, behind⟩, hitem, hmore⟩ := Option.bind_eq_some_iff.mp h
    simp only at hmore
    split at hmore
    · cases hmore
    · rename_i c text' hskip
      split at hmore
      · rename_i hcomma
        obtain ⟨⟨as', rest'⟩, hitems, heq⟩ := Option.map_eq_some_iff.mp hmore
        cases heq
        exact ⟨a, behind, as', hitem, rfl, .inr ⟨fuel, text', by rw [hskip, hcomma], hitems⟩⟩
      · split at hmore
        · cases hmore
          exact ⟨a, behind, [], hitem, rfl, .inl rfl⟩
        · cases hmore

/-- One item that is misread makes the list misread. -/
theorem readItems_ne {close : Char} {texts : β → List Char} {values : β → α} {good : β → Prop} {xs : List β}
    (hline : ∀ x ∈ xs, ∃ text, texts x = '\n' :: text)
    (h : ∀ x ∈ xs, ReadsIff item (good x) (texts x) (values x)) (hbad : ¬∀ x ∈ xs, good x) (fuel : Nat)
    (rest rest' : List Char) :
    readItems item close fuel ([','].intercalate (xs.map texts) ++ '\n' :: rest) ≠ some (xs.map values, rest') := by
  intro hread
  induction xs generalizing fuel with
  | nil => exact hbad fun x hx => absurd hx List.not_mem_nil
  | cons x xs ih =>
    obtain ⟨hxLine, hxsLine⟩ := List.forall_mem_cons.mp hline
    obtain ⟨hx, hxs⟩ := List.forall_mem_cons.mp h
    obtain ⟨a, behind, as, hitem, has, hmore⟩ := readItems_eq_some hread
    rw [List.map_cons, List.cons.injEq] at has
    obtain ⟨rfl, rfl⟩ := has
    cases xs with
    | nil =>
      rw [List.map_cons, List.map_nil, List.intercalate_singleton] at hitem
      have hxBad : ¬good x := fun hgood => hbad (List.forall_mem_singleton.mpr hgood)
      exact hx.misreads hxBad _ ⟨rest, .inl rfl⟩ behind hitem
    | cons x' xs =>
      obtain ⟨text, htext⟩ := hxsLine x' List.mem_cons_self
      obtain ⟨text', htext'⟩ : ∃ text', [','].intercalate ((x' :: xs).map texts) ++ '\n' :: rest = '\n' :: text' := by
        rw [List.map_cons, htext]
        cases xs with
        | nil => exact ⟨_, by rw [List.map_nil, List.intercalate_singleton]; rfl⟩
        | cons x'' xs => exact ⟨_, by rw [List.map_cons, List.intercalate_cons_cons]; rfl⟩
      rw [List.map_cons, List.map_cons, List.intercalate_cons_cons, ← List.map_cons, List.append_assoc, List.append_assoc,
        List.singleton_append, htext'] at hitem
      by_cases hgood : good x
      · obtain ⟨behind', hitem', hskip⟩ := hx.reads hgood _ (LineEnds.ends ⟨text', .inr rfl⟩)
        rw [hitem] at hitem'
        cases hitem'
        obtain hnil | ⟨fuel', text'', hcomma, hitems⟩ := hmore
        · cases hnil
        · rw [hskip, skip_cons rfl] at hcomma
          cases hcomma
          rw [← htext'] at hitems
          exact ih hxsLine hxs (fun hall => hbad (List.forall_mem_cons.mpr ⟨hgood, hall⟩)) fuel' hitems
      · exact hx.misreads hgood _ ⟨text', .inr rfl⟩ behind hitem

end Reads

/-! ### Strings -/

theorem ne_newline_of_unescape {c c' : Char} (h : unescape c = some c') : c ≠ '\n' := by
  rintro rfl
  cases h

theorem mapM_eq_none {α β : Type} {f : α → Option β} {x : α} (hx : f x = none) {xs : List α} (h : x ∈ xs) :
    xs.mapM f = none := by
  induction xs with
  | nil => cases h
  | cons y xs ih =>
    rw [List.mapM_cons]
    obtain rfl | h := List.mem_cons.mp h
    · rw [hx]
      rfl
    · rw [ih h]
      cases f y <;> rfl

theorem newline_notMem_of_codeChar {digits : List Char} {c : Char} (h : codeChar digits = some c) : '\n' ∉ digits := by
  intro hmem
  have hdigit : hexDigit '\n' = none := rfl
  rw [codeChar, mapM_eq_none hdigit hmem] at h
  cases h

/-- What is read as a string has fewer characters than its text if anything was escaped there. -/
theorem readString_eq_some {text s rest : List Char} (h : readString text = some (s, rest)) :
    ∃ raw, text = raw ++ '"' :: rest ∧ '\n' ∉ raw ∧ (s = raw ∧ Plain raw ∨ s.length < raw.length) := by
  induction text using readString.induct generalizing s with
  | case1 => cases h
  | case2 rest' =>
    cases h
    exact ⟨[], rfl, List.not_mem_nil, .inl ⟨rfl, fun _ hc => absurd hc List.not_mem_nil⟩⟩
  | case3 a b c d rest' ih =>
    obtain ⟨code, hcode, hread⟩ := Option.bind_eq_some_iff.mp h
    obtain ⟨⟨s', rest''⟩, hrest, heq⟩ := Option.map_eq_some_iff.mp hread
    cases heq
    obtain ⟨raw, rfl, hline, hraw⟩ := ih hrest
    refine ⟨'\\' :: 'u' :: ([a, b, c, d] ++ raw), rfl, ?_, .inr ?_⟩
    · have hdigits := newline_notMem_of_codeChar hcode
      simp only [List.mem_cons, List.mem_append] at hdigits ⊢
      tauto
    · have hle : s'.length ≤ raw.length := hraw.elim (fun hsame => hsame.1 ▸ le_rfl) le_of_lt
      simp only [List.length_cons, List.length_append, List.length_nil]
      omega
  | case4 c rest' hu ih =>
    rw [readString] at h
    · obtain ⟨c', hc', hread⟩ := Option.bind_eq_some_iff.mp h
      obtain ⟨⟨s', rest''⟩, hrest, heq⟩ := Option.map_eq_some_iff.mp hread
      cases heq
      obtain ⟨raw, rfl, hline, hraw⟩ := ih hrest
      refine ⟨'\\' :: c :: raw, rfl, ?_, .inr ?_⟩
      · have hc := ne_newline_of_unescape hc'
        simp only [List.mem_cons]
        tauto
      · have hle : s'.length ≤ raw.length := hraw.elim (fun hsame => hsame.1 ▸ le_rfl) le_of_lt
        simp only [List.length_cons]
        omega
    · exact hu
  | case5 c rest' hquote hu hescape hlow =>
    rw [readString, if_pos hlow] at h
    · cases h
    · exact hquote
    · exact hu
    · exact hescape
  | case6 c rest' hquote hu hescape hlow ih =>
    rw [readString, if_neg hlow] at h
    · obtain ⟨⟨s', rest''⟩, hrest, heq⟩ := Option.map_eq_some_iff.mp h
      cases heq
      obtain ⟨raw, rfl, hline, hraw⟩ := ih hrest
      have hbackslash : c ≠ '\\' := by
        rintro rfl
        cases raw with
        | nil => exact hescape _ _ rfl rfl
        | cons c' raw => exact hescape _ _ rfl rfl
      refine ⟨c :: raw, rfl, ?_, ?_⟩
      · intro hmem
        obtain rfl | hmem := List.mem_cons.mp hmem
        · exact hlow (by decide)
        · exact hline hmem
      · refine hraw.imp (fun hsame => ⟨by rw [hsame.1], List.forall_mem_cons.mpr ⟨⟨hquote, hbackslash, hlow⟩, hsame.2⟩⟩) ?_
        exact Nat.succ_lt_succ
    · exact hquote
    · exact hu
    · exact hescape

/-- A string that stands in its line as it is. -/
theorem readString_line {body s rest rest' : List Char} (hrest : LineEnds rest)
    (h : readString (body ++ '"' :: rest) = some (s, rest')) : s = body ∧ Plain body ∨ s.length < body.length := by
  obtain ⟨raw, heq, hline, hraw⟩ := readString_eq_some h
  have hle : s.length ≤ raw.length := hraw.elim (fun hsame => hsame.1 ▸ le_rfl) le_of_lt
  obtain ⟨more, rfl, hmore⟩ | ⟨more, rfl, hmore⟩ := List.append_eq_append_iff.mp heq
  · cases more with
    | nil => simpa using hraw
    | cons c more =>
      cases hmore
      obtain ⟨line, hnewline | hcomma⟩ := hrest
      · cases more with
        | nil => cases hnewline
        | cons c more =>
          cases hnewline
          exact absurd (List.mem_append_right body (by simp)) hline
      · match more, hcomma with
        | [_], hcomma => cases hcomma
        | _ :: _ :: more, hcomma =>
          cases hcomma
          exact absurd (List.mem_append_right body (by simp)) hline
  · cases more with
    | nil => simpa using hraw
    | cons c more =>
      refine .inr ?_
      rw [List.length_append, List.length_cons]
      omega

section Values

variable {depth : ℕ} {text : List Char} {good : Prop} {value : Value}

/-- A string is read of its text if it could stand there as it is. -/
theorem readsIff_string (depth : ℕ) {s body : List Char} (hlength : body.length ≤ s.length) (hplain : Plain s → body = s) :
    ReadsIff (readValue (depth + 1)) (Plain s) ('"' :: (body ++ ['"'])) (.string s) where
  reads := by
    intro h
    rw [hplain h]
    have hread : ∀ rest, readString (s ++ '"' :: rest) = (some s).map fun s => (s, rest) := readString_plain h
    exact reads_string depth hread
  misreads := by
    intro hnot rest hrest rest' hread
    rw [readValue_string] at hread
    obtain ⟨⟨s', rest''⟩, hstring, heq⟩ := Option.map_eq_some_iff.mp hread
    cases heq
    obtain ⟨rfl, hbody⟩ | hless := readString_line hrest hstring
    · exact hnot hbody
    · exact absurd (hless.trans_le hlength) (lt_irrefl _)

theorem ReadsIff.blank_append (h : ReadsIff (readValue depth) good text value) {blanks : List Char}
    (hblanks : Blank blanks) : ReadsIff (readValue depth) good (blanks ++ text) value where
  reads := fun hgood => (h.reads hgood).blank_append hblanks
  misreads := by
    intro hbad rest hrest rest'
    rw [List.append_assoc, readValue_blank hblanks]
    exact h.misreads hbad rest hrest rest'

theorem readsIff_member {key : List Char} (hkey : Plain key) {blanks : List Char} (hblanks : Blank blanks)
    (h : ReadsIff (readValue depth) good text value) :
    ReadsIff (readMember (readValue depth)) good (blanks ++ '"' :: (key ++ '"' :: ':' :: text)) (key, value) where
  reads := fun hgood => reads_member hkey hblanks (h.reads hgood)
  misreads := by
    intro hbad rest hrest rest' hread
    rw [readMember_append depth hkey hblanks] at hread
    obtain ⟨⟨value', rest''⟩, hvalue, heq⟩ := Option.map_eq_some_iff.mp hread
    cases heq
    exact h.misreads hbad rest hrest _ hvalue

/-- A list of values or of members that stand on lines of their own, and so does its closing bracket. -/
theorem readsIff_list {α β : Type} {item : List Char → Option (α × List Char)} {texts : β → List Char}
    {values : β → α} {good : β → Prop} {opening close : Char} {make : List α → Value}
    (hclose : close = ']' ∨ close = '}') (hinj : Function.Injective make)
    (hmake : ∀ text, readValue (depth + 1) (opening :: text) =
      (readList item close text).map fun found => (make found.1, found.2))
    {xs : List β} (hne : xs ≠ []) (hstarts : ∀ x ∈ xs, Starts close (texts x))
    (hline : ∀ x ∈ xs, ∃ text, texts x = '\n' :: text) (h : ∀ x ∈ xs, ReadsIff item (good x) (texts x) (values x))
    {blanks : List Char} (hblanks : Blank ('\n' :: blanks)) :
    ReadsIff (readValue (depth + 1)) (∀ x ∈ xs, good x)
      (opening :: ([','].intercalate (xs.map texts) ++ '\n' :: (blanks ++ [close]))) (make (xs.map values)) where
  reads := by
    intro hgood rest _
    have hread := readList_intercalate hclose hne hstarts (fun x hx => (h x hx).reads (hgood x hx)) hblanks rest
    have hall : (xs.mapM fun x => some (values x)) = some (xs.map values) := List.mapM_pure
    refine ⟨rest, ?_, rfl⟩
    rw [hall] at hread
    rw [List.cons_append, hmake, List.append_assoc, List.cons_append, List.append_assoc, List.singleton_append,
      ← List.cons_append, hread]
    rfl
  misreads := by
    intro hbad rest hrest rest' hread
    rw [List.cons_append, hmake] at hread
    obtain ⟨⟨as, rest''⟩, hlist, heq⟩ := Option.map_eq_some_iff.mp hread
    obtain ⟨hvalue, -⟩ := Prod.mk.inj heq
    obtain rfl := hinj hvalue
    rw [readList] at hlist
    split at hlist
    · cases hlist
    · split at hlist
      · cases xs with
        | nil => exact hne rfl
        | cons x xs => cases hlist
      · rw [List.append_assoc] at hlist
        exact readItems_ne hline h hbad _ _ _ hlist

theorem readsIff_elements {β : Type} (depth : ℕ) {texts : β → List Char} {values : β → Value} {good : β → Prop}
    {xs : List β} (hne : xs ≠ []) (hstarts : ∀ x ∈ xs, Starts ']' (texts x))
    (hline : ∀ x ∈ xs, ∃ text, texts x = '\n' :: text)
    (h : ∀ x ∈ xs, ReadsIff (readValue depth) (good x) (texts x) (values x)) {blanks : List Char}
    (hblanks : Blank ('\n' :: blanks)) :
    ReadsIff (readValue (depth + 1)) (∀ x ∈ xs, good x)
      ('[' :: ([','].intercalate (xs.map texts) ++ '\n' :: (blanks ++ [']']))) (.array (xs.map values)) :=
  readsIff_list (.inl rfl) (fun _ _ => Value.array.inj) (fun _ => rfl) hne hstarts hline h hblanks

/-- A member that stands on a line of its own. -/
structure Member.ReadsIffAt (depth : ℕ) (member : Member) : Prop where
  line : ∃ blanks, member.before = '\n' :: blanks
  before : Blank member.before
  key : Plain member.key
  text : ReadsIff (readValue depth) (member.readable = true) member.text member.value

theorem readsIff_members (depth : ℕ) {members : List Member} (hne : members ≠ [])
    (h : ∀ member ∈ members, member.ReadsIffAt depth) {blanks : List Char} (hblanks : Blank ('\n' :: blanks)) :
    ReadsIff (readValue (depth + 1)) (∀ member ∈ members, member.readable = true)
      ('{' :: ([','].intercalate (members.map Member.written) ++ '\n' :: (blanks ++ ['}'])))
      (.object (members.map fun member => (member.key, member.value))) := by
  refine readsIff_list (.inr rfl) (fun _ _ => Value.object.inj) (fun _ => rfl) hne ?_ ?_ ?_ hblanks
  · intro member hmember
    exact starts_member member.key (h member hmember).before member.text
  · intro member hmember
    obtain ⟨blanks, hline⟩ := (h member hmember).line
    exact ⟨_, by rw [Member.written, hline, List.cons_append]⟩
  · intro member hmember
    exact readsIff_member (h member hmember).key (h member hmember).before (h member hmember).text

/-- A document with a line break behind it. -/
theorem read_iff (h : ReadsIff (readValue (text ++ ['\n']).length) good text value) :
    read (text ++ ['\n']) = some value ↔ good := by
  have hline : LineEnds ['\n'] := ⟨[], .inl rfl⟩
  constructor
  · intro hread
    by_contra hbad
    obtain ⟨⟨value', rest⟩, hvalue, hend⟩ := Option.bind_eq_some_iff.mp hread
    simp only [Option.ite_none_right_eq_some, Option.some.injEq] at hend
    obtain ⟨-, rfl⟩ := hend
    exact h.misreads hbad _ hline rest hvalue
  · intro hgood
    have hblank : Blank ['\n'] := by decide
    have hreads := (h.reads hgood).append_blank hblank
    exact read_eq hreads

end Values

end Json

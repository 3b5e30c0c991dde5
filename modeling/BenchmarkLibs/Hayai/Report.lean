import BenchmarkLibs.Base.Json
import BenchmarkLibs.Base.Rounding
import BenchmarkLibs.Hayai.Run

/-!
# The JSON report

The outputter writes its document piece by piece, as it is called. What a reader makes of the whole document
is the report of the session, unless a name has a control character in it that the outputter does not escape
(`jsonOutputter_read`). A duration is rounded three times before it is read, which does not show before the run took
99 days.
-/

namespace BenchmarkLibs.Hayai

open Json

def JSON_OBJECT_BEGIN : List Char := ['{']

def JSON_OBJECT_END : List Char := ['}']

def JSON_ARRAY_BEGIN : List Char := ['[']

def JSON_ARRAY_END : List Char := [']']

def JSON_STRING_BEGIN : List Char := ['"']

def JSON_STRING_END : List Char := ['"']

def JSON_NAME_SEPARATOR : List Char := [':']

def JSON_VALUE_SEPARATOR : List Char := [',']

def JSON_TRUE : List Char := ['t', 'r', 'u', 'e']

def JSON_FALSE : List Char := ['f', 'a', 'l', 's', 'e']

/-- The stream, and whether a test has been written to it. -/
structure JsonOutputter where
  stream : List Char
  firstTest : Bool

def escape (c : Char) : List Char :=
  if c = '\\' ∨ c = '"' ∨ c = '/' then ['\\', c]
  else if c = '\x08' then ['\\', 'b']
  else if c = '\x0c' then ['\\', 'f']
  else if c = '\n' then ['\\', 'n']
  else if c = '\r' then ['\\', 'r']
  else if c = '\t' then ['\\', 't']
  else [c]

def WriteString (str : List Char) : List Char :=
  JSON_STRING_BEGIN ++ str.flatMap escape ++ JSON_STRING_END

/-- A name and the separator behind it. -/
def name (text : String) : List Char :=
  JSON_STRING_BEGIN ++ text.toList ++ JSON_STRING_END ++ JSON_NAME_SEPARATOR

def writeParameter (parameter : TestParameterDescriptor) : List Char :=
  JSON_OBJECT_BEGIN ++ name "declaration" ++ WriteString parameter.Declaration ++ JSON_VALUE_SEPARATOR ++
    name "value" ++ WriteString parameter.Value ++ JSON_OBJECT_END

/-- The items of a list, with separators between them. -/
def writeItems {α : Type} (write : α → List Char) (isFirst : Bool) : List α → List Char
  | [] => []
  | item :: items =>
    (if isFirst then [] else JSON_VALUE_SEPARATOR) ++ write item ++ writeItems write false items

def writeParameters (parameters : List TestParameterDescriptor) : List Char :=
  if parameters = [] then []
  else
    name "parameters" ++ JSON_ARRAY_BEGIN ++ writeItems writeParameter true parameters ++ JSON_ARRAY_END ++
      JSON_VALUE_SEPARATOR

variable {σ : Type}

def JsonOutputter.write (out : JsonOutputter) (text : List Char) : JsonOutputter :=
  { out with stream := out.stream ++ text }

/-- The object of a test, up to its runs. -/
def testObject (descriptor : TestDescriptor σ) (disabled : Bool) : List Char :=
  JSON_OBJECT_BEGIN ++ name "fixture" ++ WriteString descriptor.FixtureName ++ JSON_VALUE_SEPARATOR ++
    name "name" ++ WriteString descriptor.TestName ++ JSON_VALUE_SEPARATOR ++ writeParameters descriptor.Parameters ++
    name "iterations_per_run" ++ Nat.toDigits 10 descriptor.Iterations ++ JSON_VALUE_SEPARATOR ++
    name "disabled" ++ (if disabled then JSON_TRUE else JSON_FALSE)

def JsonOutputter.BeginTestObject (out : JsonOutputter) (descriptor : TestDescriptor σ) (disabled : Bool) :
    JsonOutputter :=
  let out := if out.firstTest then { out with firstTest := false } else out.write JSON_VALUE_SEPARATOR
  out.write (testObject descriptor disabled)

/-- Rounded to a `double`; times are far from where it overflows or underflows. -/
def double (x : ℚ) : ℚ :=
  Rounding.toDigits 53 x

/-- What six decimals leave of a number, in millionths. -/
def millionths (x : ℚ) : Nat :=
  (Rounding.toInt (x * ((1000000 : ℕ) : ℚ))).toNat

/-- A number that is not negative as `std::fixed` and `std::setprecision(6)` write it. -/
def fixed (x : ℚ) : List Char :=
  let digits := Nat.toDigits 10 (millionths x % 1000000)
  Nat.toDigits 10 (millionths x / 1000000) ++ '.' :: (List.replicate (6 - digits.length) '0' ++ digits)

/-- A time as a `double` of milliseconds. -/
def milliseconds (time : Nat) : ℚ :=
  double (double time / ((1000000 : ℕ) : ℚ))

def writeRun (time : Nat) : List Char :=
  JSON_OBJECT_BEGIN ++ name "duration" ++ fixed (milliseconds time) ++ JSON_OBJECT_END

def writeRuns (runTimes : List Nat) : List Char :=
  JSON_VALUE_SEPARATOR ++ name "runs" ++ JSON_ARRAY_BEGIN ++ writeItems writeRun true runTimes ++ JSON_ARRAY_END

def JsonOutputter.call (out : JsonOutputter) : Call σ → JsonOutputter
  | .Begin _ _ =>
    out.write (JSON_OBJECT_BEGIN ++ name "format_version" ++ ['1'] ++ JSON_VALUE_SEPARATOR ++ name "benchmarks" ++
      JSON_ARRAY_BEGIN)
  | .BeginTest descriptor => out.BeginTestObject descriptor false
  | .SkipDisabledTest descriptor => (out.BeginTestObject descriptor true).write JSON_OBJECT_END
  | .EndTest _ result => out.write (writeRuns result.runTimes ++ JSON_OBJECT_END)
  | .End _ _ => out.write (JSON_ARRAY_END ++ JSON_OBJECT_END)

/-- What is written in a series of calls. -/
def JsonOutputter.output (calls : List (Call σ)) : List Char :=
  (calls.foldl JsonOutputter.call ⟨[], true⟩).stream

/-! ### The report -/

/-- Whether the outputter escapes whatever has to be escaped. -/
def isEscaped (str : List Char) : Bool :=
  str.all fun c => !(c < ' ') || c = '\x08' || c = '\x0c' || c = '\n' || c = '\r' || c = '\t'

def parameterValue (parameter : TestParameterDescriptor) : Value :=
  .object [("declaration".toList, .string parameter.Declaration), ("value".toList, .string parameter.Value)]

/-- The milliseconds that are shown for a time of nanoseconds. -/
def shown (time : Nat) : ℚ :=
  millionths (milliseconds time) / ((1000000 : ℕ) : ℚ)

def runValue (time : Nat) : Value :=
  .object [("duration".toList, .number (shown time))]

/-- The member for the parameters, if there are any. -/
def parametersMember (parameters : List TestParameterDescriptor) : List (List Char × Value) :=
  if parameters = [] then [] else [("parameters".toList, .array (parameters.map parameterValue))]

/-- The member for the runs, if the test was run. -/
def runsMember : Option TestResult → List (List Char × Value)
  | none => []
  | some result => [("runs".toList, .array (result.runTimes.map runValue))]

def Entry.value (entry : Entry σ) : Value :=
  .object (([("fixture".toList, .string entry.descriptor.FixtureName),
    ("name".toList, .string entry.descriptor.TestName)] ++ parametersMember entry.descriptor.Parameters) ++
    ([("iterations_per_run".toList, .number entry.descriptor.Iterations),
      ("disabled".toList, .bool entry.result.isNone)] ++ runsMember entry.result))

def report (entries : List (Entry σ)) : Value :=
  .object [("format_version".toList, .number ((1 : ℕ) : ℚ)), ("benchmarks".toList, .array (entries.map Entry.value))]

/-- Whether all the texts of an entry are escaped as they have to be. -/
def Entry.isEscaped (entry : Entry σ) : Bool :=
  Hayai.isEscaped entry.descriptor.FixtureName && Hayai.isEscaped entry.descriptor.TestName &&
    entry.descriptor.Parameters.all fun parameter =>
      Hayai.isEscaped parameter.Declaration && Hayai.isEscaped parameter.Value

/-! ### Reading the texts -/

theorem readString_escapeChar (c : Char) (rest : List Char) :
    readString (escape c ++ rest) =
      if isEscaped [c] then (readString rest).map fun found => (c :: found.1, found.2) else none := by
  by_cases hquoted : c = '\\' ∨ c = '"' ∨ c = '/'
  · have hescape : escape c = ['\\', c] := if_pos hquoted
    rw [hescape, List.cons_append, List.singleton_append]
    obtain rfl | rfl | rfl := hquoted <;> rfl
  · by_cases hcontrol : c = '\x08' ∨ c = '\x0c' ∨ c = '\n' ∨ c = '\r' ∨ c = '\t'
    · obtain rfl | rfl | rfl | rfl | rfl := hcontrol <;> rfl
    · obtain ⟨hbackslash, hquote, -⟩ := not_or.mp hquoted |>.imp_right not_or.mp
      simp only [not_or] at hcontrol
      obtain ⟨hb, hf, hn, hr, ht⟩ := hcontrol
      have hescape : escape c = [c] := by
        rw [escape, if_neg hquoted, if_neg hb, if_neg hf, if_neg hn, if_neg hr, if_neg ht]
      rw [hescape, List.singleton_append, readString_char hquote hbackslash]
      by_cases hlow : c < ' '
      · simp [isEscaped, hlow, hb, hf, hn, hr, ht]
      · simp [isEscaped, hlow]

theorem readString_flatMap_escape (str rest : List Char) :
    readString (str.flatMap escape ++ '"' :: rest) =
      (if isEscaped str then some str else none).map fun s => (s, rest) := by
  induction str with
  | nil => rfl
  | cons c str ih =>
    have hcons : isEscaped (c :: str) = (isEscaped [c] && isEscaped str) := by simp [isEscaped]
    rw [List.flatMap_cons, List.append_assoc, readString_escapeChar, ih, hcons]
    cases isEscaped [c] with
    | false => rfl
    | true => cases isEscaped str <;> rfl

variable {depth : Nat}

theorem reads_writeString (str : List Char) :
    Reads (readValue (depth + 1)) (WriteString str) (if isEscaped str then some (.string str) else none) := by
  have hread := reads_string depth (readString_flatMap_escape str)
  cases hescaped : isEscaped str with
  | false => simpa [hescaped, WriteString, JSON_STRING_BEGIN, JSON_STRING_END] using hread
  | true => simpa [hescaped, WriteString, JSON_STRING_BEGIN, JSON_STRING_END] using hread

theorem reads_fixed (x : ℚ) :
    Reads (readValue (depth + 1)) (fixed x) (some (.number (millionths x / ((1000000 : ℕ) : ℚ)))) := by
  rw [fixed]
  generalize millionths x = n
  have hlength : (Nat.toDigits 10 (n % 1000000)).length ≤ 6 :=
    (Nat.length_toDigits_le_iff (by decide) (by decide)).mpr (Nat.mod_lt _ (by decide))
  generalize hfraction : List.replicate (6 - (Nat.toDigits 10 (n % 1000000)).length) '0' ++
    Nat.toDigits 10 (n % 1000000) = fraction
  have hsix : fraction.length = 6 := by
    rw [← hfraction, List.length_append, List.length_replicate]
    omega
  have hdigits : ∀ c ∈ fraction, c.isDigit = true := by
    intro c hc
    rw [← hfraction] at hc
    obtain hzero | hdigit := List.mem_append.mp hc
    · rw [List.eq_of_mem_replicate hzero]
      rfl
    · exact isDigit_toDigits _ c hdigit
  have hvalue : Nat.ofDigitChars 10 fraction 0 = n % 1000000 := by
    rw [← hfraction, Nat.ofDigitChars_append, Nat.ofDigitChars_replicate_zero, Nat.mul_zero,
      Nat.ofDigitChars_ten_toDigits]
  have hne : fraction ≠ [] := by
    rintro rfl
    cases hsix
  have hread := reads_decimal depth (n / 1000000) hne hdigits
  have hwhole : ((n / 1000000 : ℕ) : ℚ) + ((n % 1000000 : ℕ) : ℚ) / ((10 : ℕ) : ℚ) ^ 6 = n / ((1000000 : ℕ) : ℚ) := by
    have hsplit : ((1000000 * (n / 1000000) + n % 1000000 : ℕ) : ℚ) = n := by rw [Nat.div_add_mod]
    have hmillion : ((1000000 : ℕ) : ℚ) ≠ 0 := by norm_num
    have hpower : ((10 : ℕ) : ℚ) ^ 6 = ((1000000 : ℕ) : ℚ) := by norm_num
    rw [hpower, ← hsplit, Nat.cast_add, Nat.cast_mul, add_div, mul_div_cancel_left₀ _ hmillion]
  rw [hvalue, hsix, hwhole] at hread
  exact hread

/-! ### How a duration is rounded -/

theorem abs_double_sub_le {x : ℚ} (e : ℕ) (h : |x| < ((2 : ℕ) : ℚ) ^ e) :
    |double x - x| ≤ ((2 : ℕ) : ℚ) ^ ((e : ℤ) - 54) := by
  have hround := Rounding.abs_toDigits_sub_le 53 (x := x) (e := e) (by rwa [zpow_natCast])
  rwa [sub_sub] at hround

/-- Every time below `2 ^ 33` milliseconds is shown as it was measured. -/
theorem shown_eq {time : Nat} (h : time < 2 ^ 33 * 1000000) : shown time = time / ((1000000 : ℕ) : ℚ) := by
  have hexact : double (time : ℚ) = time := Rounding.toDigits_natCast (by omega)
  have htime : (time : ℚ) < 2 ^ 33 * 1000000 := by exact_mod_cast h
  have hless : |(time : ℚ) / ((1000000 : ℕ) : ℚ)| < ((2 : ℕ) : ℚ) ^ 33 := by
    rw [abs_of_nonneg (by positivity), div_lt_iff₀ (by norm_num)]
    exact_mod_cast htime
  have hquotient := abs_double_sub_le 33 hless
  have hmillion : (0 : ℚ) < ((1000000 : ℕ) : ℚ) := by norm_num
  -- less than half a millionth
  have hscaled : |milliseconds time * ((1000000 : ℕ) : ℚ) - ((time : ℤ) : ℚ)| < 1 / ((2 : ℕ) : ℚ) := by
    have hfactor : milliseconds time * ((1000000 : ℕ) : ℚ) - ((time : ℤ) : ℚ) =
        (double (time / ((1000000 : ℕ) : ℚ)) - time / ((1000000 : ℕ) : ℚ)) * ((1000000 : ℕ) : ℚ) := by
      rw [milliseconds, hexact, sub_mul, div_mul_cancel₀ _ hmillion.ne', Int.cast_natCast]
    rw [hfactor, abs_mul, abs_of_pos hmillion]
    calc |double (time / ((1000000 : ℕ) : ℚ)) - time / ((1000000 : ℕ) : ℚ)| * ((1000000 : ℕ) : ℚ)
        ≤ ((2 : ℕ) : ℚ) ^ (((33 : ℕ) : ℤ) - 54) * ((1000000 : ℕ) : ℚ) :=
          mul_le_mul_of_nonneg_right hquotient hmillion.le
      _ < 1 / ((2 : ℕ) : ℚ) := by norm_num
  rw [shown, millionths, Rounding.toInt_eq hscaled, Int.toNat_natCast]

-- the bound cannot be put off
example : shown (2 ^ 33 * 1000000 + 1) = (2 ^ 33 * 1000000 + 2 : ℕ) / ((1000000 : ℕ) : ℚ) := by decide +kernel

/-- Every other time, to three microseconds. -/
theorem abs_shown_sub_le {time : Nat} (h : time < word) :
    |shown time - time / ((1000000 : ℕ) : ℚ)| ≤ 3 / ((1000 : ℕ) : ℚ) := by
  have htime : (time : ℚ) < 2 ^ 64 := by exact_mod_cast h
  have hnonneg : (0 : ℚ) ≤ double time := Rounding.toDigits_nonneg 53 (Nat.cast_nonneg time)
  have hfirst : |double (time : ℚ) - time| ≤ 1024 := by
    have hround := abs_double_sub_le 64 (x := time) (by rw [abs_of_nonneg (Nat.cast_nonneg time)]; exact_mod_cast htime)
    norm_num at hround
    exact hround
  have hquotient : |double (time : ℚ) / ((1000000 : ℕ) : ℚ)| < ((2 : ℕ) : ℚ) ^ 45 := by
    rw [abs_of_nonneg (by positivity), div_lt_iff₀ (by norm_num)]
    have hupper := (abs_le.mp hfirst).2
    norm_num
    linarith
  have hsecond : |milliseconds time - double time / ((1000000 : ℕ) : ℚ)| ≤ 1 / 512 := by
    have hround := abs_double_sub_le 45 hquotient
    norm_num at hround
    exact hround
  have hmilliseconds : 0 ≤ milliseconds time := Rounding.toDigits_nonneg 53 (by positivity)
  have hthird : |(millionths (milliseconds time) : ℚ) - milliseconds time * ((1000000 : ℕ) : ℚ)| ≤ 1 / 2 := by
    have hround := Rounding.abs_toInt_sub_le (milliseconds time * ((1000000 : ℕ) : ℚ))
    have hint : 0 ≤ Rounding.toInt (milliseconds time * ((1000000 : ℕ) : ℚ)) := Rounding.toInt_nonneg (by positivity)
    rwa [millionths, ← Int.cast_natCast, Int.toNat_of_nonneg hint]
  rw [shown]
  rw [abs_le] at hfirst hsecond hthird ⊢
  norm_num at hsecond hthird ⊢
  constructor <;> linarith

theorem writeItems_false {α : Type} (write : α → List Char) (items : List α) :
    writeItems write false items = items.flatMap fun item => ',' :: write item := by
  induction items with
  | nil => rfl
  | cons item items ih =>
    rw [writeItems, ih, List.flatMap_cons]
    rfl

theorem writeItems_true {α : Type} (write : α → List Char) (items : List α) :
    writeItems write true items = [','].intercalate (items.map write) := by
  cases items with
  | nil => rfl
  | cons item items =>
    rw [writeItems, writeItems_false]
    induction items generalizing item with
    | nil => simp
    | cons item' items ih =>
      have hrest := ih item'
      simp only [if_true, List.nil_append] at hrest ⊢
      rw [List.map_cons, List.map_cons, List.intercalate_cons_cons, ← List.map_cons, ← hrest, List.flatMap_cons]
      simp

/-- A member without blanks before it. -/
def member (key : String) (text : List Char) (readable : Bool) (value : Value) : Member :=
  ⟨[], key.toList, text, readable, value⟩

theorem written_member (key : String) (text : List Char) (readable : Bool) (value : Value) :
    (member key text readable value).written = name key ++ text := by
  simp [member, Member.written, name, JSON_STRING_BEGIN, JSON_STRING_END, JSON_NAME_SEPARATOR]

theorem member_readsAt {key : String} (hkey : Plain key.toList) {text : List Char} {readable : Bool} {value : Value}
    (h : Reads (readValue depth) text (if readable then some value else none)) :
    (member key text readable value).ReadsAt depth :=
  ⟨fun _ hc => absurd hc List.not_mem_nil, hkey, h⟩

/-! ### Reading the document -/

theorem starts_object (text : List Char) : Starts ']' ('{' :: text) :=
  ⟨'{', text, skip_cons rfl text, by decide⟩

def parameterMembers (parameter : TestParameterDescriptor) : List Member :=
  [member "declaration" (WriteString parameter.Declaration) (isEscaped parameter.Declaration) (.string parameter.Declaration),
    member "value" (WriteString parameter.Value) (isEscaped parameter.Value) (.string parameter.Value)]

theorem reads_parameter (parameter : TestParameterDescriptor) :
    Reads (readValue (depth + 2)) (writeParameter parameter)
      (if isEscaped parameter.Declaration && isEscaped parameter.Value then some (parameterValue parameter) else none) := by
  have hread := reads_members (depth + 1) (parameterMembers parameter) (by
    intro m hm
    obtain rfl | rfl : m = _ ∨ m = _ := by simpa [parameterMembers] using hm
    · exact member_readsAt (by decide) (reads_writeString _)
    · exact member_readsAt (by decide) (reads_writeString _))
  have htext : '{' :: ([','].intercalate ((parameterMembers parameter).map Member.written) ++ ['}']) =
      writeParameter parameter := by
    simp [parameterMembers, written_member, writeParameter, JSON_OBJECT_BEGIN, JSON_OBJECT_END, JSON_VALUE_SEPARATOR]
  rw [htext] at hread
  simpa [parameterMembers, member, parameterValue] using hread

theorem reads_run (time : Nat) : Reads (readValue (depth + 2)) (writeRun time) (some (runValue time)) := by
  have hread := reads_members (depth + 1)
    [member "duration" (fixed (milliseconds time)) true (.number (shown time))] (by
      intro m hm
      obtain rfl := List.mem_singleton.mp hm
      exact member_readsAt (by decide) (reads_fixed _))
  have htext : '{' :: ([','].intercalate
      ([member "duration" (fixed (milliseconds time)) true (.number (shown time))].map Member.written) ++
        ['}']) = writeRun time := by
    simp [written_member, writeRun, JSON_OBJECT_BEGIN, JSON_OBJECT_END]
  rw [htext] at hread
  simpa [member, runValue] using hread

/-- The member for the parameters, as it is written. -/
def parametersWritten (parameters : List TestParameterDescriptor) : List Member :=
  if parameters = [] then []
  else [member "parameters" (JSON_ARRAY_BEGIN ++ writeItems writeParameter true parameters ++ JSON_ARRAY_END)
    (parameters.all fun parameter => isEscaped parameter.Declaration && isEscaped parameter.Value)
    (.array (parameters.map parameterValue))]

def runsWritten : Option TestResult → List Member
  | none => []
  | some result =>
    [member "runs" (JSON_ARRAY_BEGIN ++ writeItems writeRun true result.runTimes ++ JSON_ARRAY_END) true
      (.array (result.runTimes.map runValue))]

def Entry.members (entry : Entry σ) : List Member :=
  ([member "fixture" (WriteString entry.descriptor.FixtureName) (Hayai.isEscaped entry.descriptor.FixtureName)
      (.string entry.descriptor.FixtureName),
    member "name" (WriteString entry.descriptor.TestName) (Hayai.isEscaped entry.descriptor.TestName)
      (.string entry.descriptor.TestName)] ++ parametersWritten entry.descriptor.Parameters) ++
  ([member "iterations_per_run" (Nat.toDigits 10 entry.descriptor.Iterations) true (.number entry.descriptor.Iterations),
    member "disabled" (if entry.result.isNone then JSON_TRUE else JSON_FALSE) true (.bool entry.result.isNone)] ++
    runsWritten entry.result)

/-- What is written for an entry. -/
def Entry.text (entry : Entry σ) : List Char :=
  testObject entry.descriptor entry.result.isNone ++
    (match entry.result with
      | none => []
      | some result => writeRuns result.runTimes) ++ JSON_OBJECT_END

theorem Entry.text_eq (entry : Entry σ) :
    '{' :: ([','].intercalate (entry.members.map Member.written) ++ ['}']) = entry.text := by
  obtain ⟨descriptor, result⟩ := entry
  by_cases hparameters : descriptor.Parameters = []
  · cases result with
    | none =>
      simp [Entry.members, Entry.text, parametersWritten, runsWritten, hparameters, written_member, testObject,
        writeParameters, JSON_OBJECT_BEGIN, JSON_OBJECT_END, JSON_VALUE_SEPARATOR]
    | some result =>
      simp [Entry.members, Entry.text, parametersWritten, runsWritten, hparameters, written_member, testObject,
        writeParameters, writeRuns, JSON_OBJECT_BEGIN, JSON_OBJECT_END, JSON_VALUE_SEPARATOR]
  · cases result with
    | none =>
      simp [Entry.members, Entry.text, parametersWritten, runsWritten, hparameters, written_member, testObject,
        writeParameters, JSON_OBJECT_BEGIN, JSON_OBJECT_END, JSON_VALUE_SEPARATOR]
    | some result =>
      simp [Entry.members, Entry.text, parametersWritten, runsWritten, hparameters, written_member, testObject,
        writeParameters, writeRuns, JSON_OBJECT_BEGIN, JSON_OBJECT_END, JSON_VALUE_SEPARATOR]

theorem reads_parameters {parameters : List TestParameterDescriptor} {m : Member}
    (hm : m ∈ parametersWritten parameters) : m.ReadsAt (depth + 3) := by
  by_cases hparameters : parameters = []
  · rw [parametersWritten, if_pos hparameters] at hm
    cases hm
  · rw [parametersWritten, if_neg hparameters] at hm
    obtain rfl := List.mem_singleton.mp hm
    have hread := reads_elements (depth + 2) writeParameter
      (fun parameter => isEscaped parameter.Declaration && isEscaped parameter.Value) parameterValue parameters (fun parameter _ => starts_object _) (fun parameter _ => reads_parameter parameter)
    rw [← writeItems_true] at hread
    refine member_readsAt (by decide) ?_
    simpa [List.all_eq_true, JSON_ARRAY_BEGIN, JSON_ARRAY_END] using hread

theorem reads_runs {result : Option TestResult} {m : Member} (hm : m ∈ runsWritten result) : m.ReadsAt (depth + 3) := by
  cases result with
  | none => cases hm
  | some result =>
    obtain rfl := List.mem_singleton.mp hm
    have hread := reads_elements (depth + 2) writeRun (fun _ => true) runValue result.runTimes
      (fun time _ => starts_object _) (fun time _ => reads_run time)
    rw [← writeItems_true] at hread
    refine member_readsAt (by decide) ?_
    simpa [JSON_ARRAY_BEGIN, JSON_ARRAY_END] using hread

theorem readable_parametersWritten (parameters : List TestParameterDescriptor) :
    (∀ m ∈ parametersWritten parameters, m.readable = true) ↔
      (parameters.all fun parameter => isEscaped parameter.Declaration && isEscaped parameter.Value) = true := by
  by_cases h : parameters = []
  · simp [parametersWritten, h]
  · rw [parametersWritten, if_neg h, List.forall_mem_singleton]
    rfl

theorem readable_runsWritten (result : Option TestResult) : ∀ m ∈ runsWritten result, m.readable = true := by
  cases result with
  | none => exact fun m hm => absurd hm List.not_mem_nil
  | some result => exact List.forall_mem_singleton.mpr rfl

theorem value_parametersWritten (parameters : List TestParameterDescriptor) :
    (parametersWritten parameters).map (fun m => (m.key, m.value)) = parametersMember parameters := by
  by_cases h : parameters = []
  · rw [parametersWritten, parametersMember, if_pos h, if_pos h]
    rfl
  · rw [parametersWritten, parametersMember, if_neg h, if_neg h]
    rfl

theorem value_runsWritten (result : Option TestResult) :
    (runsWritten result).map (fun m => (m.key, m.value)) = runsMember result := by
  cases result with
  | none => rfl
  | some result => rfl

theorem reads_entry (entry : Entry σ) :
    Reads (readValue (depth + 4)) entry.text (if entry.isEscaped then some entry.value else none) := by
  have hread := reads_members (depth + 3) entry.members (by
    intro m hm
    obtain hfirst | hlast := List.mem_append.mp hm
    · obtain hnames | hparameters := List.mem_append.mp hfirst
      · obtain rfl | hname := List.mem_cons.mp hnames
        · exact member_readsAt (by decide) (reads_writeString _)
        · obtain rfl := List.mem_singleton.mp hname
          exact member_readsAt (by decide) (reads_writeString _)
      · exact reads_parameters hparameters
    · obtain hnumbers | hruns := List.mem_append.mp hlast
      · obtain rfl | hdisabled := List.mem_cons.mp hnumbers
        · exact member_readsAt (by decide) (reads_nat _ _)
        · obtain rfl := List.mem_singleton.mp hdisabled
          exact member_readsAt (by decide) (reads_bool _)
      · exact reads_runs hruns)
  have hreadable : (∀ m ∈ entry.members, m.readable = true) ↔ entry.isEscaped = true := by
    rw [Entry.members, List.forall_mem_append, List.forall_mem_append, List.forall_mem_append,
      readable_parametersWritten, iff_true_intro (readable_runsWritten entry.result), Entry.isEscaped,
      Bool.and_eq_true, Bool.and_eq_true]
    simp [member]
  have hvalue : Value.object (entry.members.map fun m => (m.key, m.value)) = entry.value := by
    rw [Entry.members, List.map_append, List.map_append, List.map_append, value_parametersWritten, value_runsWritten]
    rfl
  rw [Entry.text_eq, hvalue] at hread
  simpa only [hreadable] using hread

/-- The outputter after the calls for some entries. -/
theorem foldl_entries (entries : List (Entry σ)) (out : JsonOutputter) :
    (entries.flatMap Entry.calls).foldl JsonOutputter.call out =
      ⟨out.stream ++ writeItems Entry.text out.firstTest entries, out.firstTest && entries.isEmpty⟩ := by
  induction entries generalizing out with
  | nil => simp [writeItems]
  | cons entry entries ih =>
    have hfirst : entry.calls.foldl JsonOutputter.call out =
        ⟨out.stream ++ (if out.firstTest then [] else JSON_VALUE_SEPARATOR) ++ entry.text, false⟩ := by
      obtain ⟨descriptor, result⟩ := entry
      obtain ⟨stream, firstTest⟩ := out
      cases result with
      | none =>
        cases firstTest <;>
          simp [Entry.calls, JsonOutputter.call, JsonOutputter.BeginTestObject, JsonOutputter.write, Entry.text]
      | some result =>
        cases firstTest <;>
          simp [Entry.calls, JsonOutputter.call, JsonOutputter.BeginTestObject, JsonOutputter.write, Entry.text]
    rw [List.flatMap_cons, List.foldl_append, hfirst, ih, writeItems]
    simp

/-- The document, as one object. -/
theorem output_session (enabledCount disabledCount : Nat) (entries : List (Entry σ)) :
    JsonOutputter.output (session enabledCount disabledCount entries) =
      '{' :: ([','].intercalate (([member "format_version" ['1'] true (.number ((1 : ℕ) : ℚ)),
        member "benchmarks" ('[' :: ([','].intercalate (entries.map Entry.text) ++ [']']))
          (entries.all Entry.isEscaped) (.array (entries.map Entry.value))]).map Member.written) ++ ['}']) := by
  rw [JsonOutputter.output, session, List.foldl_cons, List.foldl_append, foldl_entries]
  simp only [JsonOutputter.call, JsonOutputter.write, writeItems_true, List.foldl_cons, List.foldl_nil, List.map_cons,
    List.map_nil, written_member, List.intercalate_cons_cons, List.intercalate_singleton]
  simp [JSON_OBJECT_BEGIN, JSON_OBJECT_END, JSON_ARRAY_BEGIN, JSON_ARRAY_END, JSON_VALUE_SEPARATOR]

theorem read_session (enabledCount disabledCount : Nat) (entries : List (Entry σ)) :
    Json.read (JsonOutputter.output (session enabledCount disabledCount entries)) =
      if ∀ entry ∈ entries, entry.isEscaped = true then some (report entries) else none := by
  apply read_eq
  have hdepth : ∃ depth, (JsonOutputter.output (session enabledCount disabledCount entries)).length = depth + 6 := by
    rw [output_session]
    refine ⟨_, Nat.sub_add_cancel ?_ |>.symm⟩
    simp [written_member, name, JSON_STRING_BEGIN, JSON_STRING_END, JSON_NAME_SEPARATOR]
  obtain ⟨depth, hlength⟩ := hdepth
  rw [hlength, output_session]
  have hentries := reads_elements (depth + 4) Entry.text Entry.isEscaped Entry.value entries
    (fun entry _ => by rw [← Entry.text_eq]; exact starts_object _) (fun entry _ => reads_entry entry)
  have hread := reads_members (depth + 5)
    [member "format_version" ['1'] true (.number ((1 : ℕ) : ℚ)),
      member "benchmarks" ('[' :: ([','].intercalate (entries.map Entry.text) ++ [']']))
        (entries.all Entry.isEscaped) (.array (entries.map Entry.value))] (by
      intro m hm
      obtain rfl | hbenchmarks := List.mem_cons.mp hm
      · exact member_readsAt (by decide) (reads_nat _ 1)
      · obtain rfl := List.mem_singleton.mp hbenchmarks
        refine member_readsAt (by decide) ?_
        simpa only [List.all_eq_true] using hentries)
  simpa [member, report] using hread

/-- A reader makes the report of a session out of its document, unless it has to refuse a text that is not
escaped as it should be. The report has the durations that are shown. -/
theorem jsonOutputter_read (enabledCount disabledCount : Nat) (entries : List (Entry σ)) :
    Json.read (JsonOutputter.output (session enabledCount disabledCount entries)) =
        (if ∀ entry ∈ entries, entry.isEscaped = true then some (report entries) else none) ∧
      (∀ time < 2 ^ 33 * 1000000, shown time = time / ((1000000 : ℕ) : ℚ)) ∧
      ∀ time < word, |shown time - time / ((1000000 : ℕ) : ℚ)| ≤ 3 / ((1000 : ℕ) : ℚ) :=
  ⟨read_session enabledCount disabledCount entries, fun _ h => shown_eq h, fun _ h => abs_shown_sub_le h⟩

end BenchmarkLibs.Hayai

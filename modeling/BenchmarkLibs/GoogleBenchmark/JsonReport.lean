import BenchmarkLibs.Base.JsonLines
import BenchmarkLibs.GoogleBenchmark.Reporter

/-!
# The JSON reporter

`JSONReporter` converts its numbers to `int64_t`, and puts names and labels between quotes as they are. Its document
is laid out in lines, so whether it is read as the report of all runs depends on each of these texts alone
(`jsonReporter_read`).
-/

namespace BenchmarkLibs.GoogleBenchmark

open Fallible Json BenchmarkReporter

variable {K : Type} [Field K] [LinearOrder K] [FloorRing K]

/-! ### The reporter -/

/-- What an overload of `FormatKV` takes. -/
inductive Scalar
  | string (s : List Char)
  | bool (b : Bool)
  | int64 (n : Int)

/-- What `%s` prints of a string. -/
def cString (s : List Char) : List Char := s.takeWhile fun c => c ≠ '\x00'

def FormatKV (key : List Char) : Scalar → List Char
  | .string value => '"' :: (cString key ++ ['"', ':', ' ', '"'] ++ cString value ++ ['"'])
  | .bool value => '"' :: (cString key ++ ['"', ':', ' '] ++ if value then "true".toList else "false".toList)
  | .int64 value => '"' :: (key ++ ['"', ':', ' '] ++ intText value)

/-- What a conversion to an integer type leaves of a value. -/
def truncated (v : K) : Int := if 0 ≤ v then ⌊v⌋ else ⌈v⌉

def rounded (v : K) : Int := truncated (v + 1 / ((2 : ℕ) : K))

/-- The rounded value, where it is an `int64_t`. -/
def RoundDouble (v : K) : Except BuilderFault Int := int64 (rounded v)

def indent (width : Nat) : List Char := List.replicate width ' '

def newLine : List Char := [',', '\n']

/-- A time of a run in its unit, which is printed rounded. -/
def shownTime (run : BenchmarkReporter.Run K) (time : K) : K :=
  run.perIteration (time * timeUnitMultiplier run.time_unit)

/-- The line of a rate, if there is one. -/
def rateText (key : List Char) (rate : K) : Except BuilderFault (List Char) :=
  if 0 < rate then do
    let value ← RoundDouble rate
    .ok (newLine ++ indent 6 ++ FormatKV key (.int64 value))
  else .ok []

def PrintRunData (run : BenchmarkReporter.Run K) : Except BuilderFault (List Char) := do
  let real_time ← RoundDouble (shownTime run run.real_accumulated_time)
  let cpu_time ← RoundDouble (shownTime run run.cpu_accumulated_time)
  let bytes_per_second ← rateText "bytes_per_second".toList run.bytes_per_second
  let items_per_second ← rateText "items_per_second".toList run.items_per_second
  .ok (indent 6 ++ FormatKV "name".toList (.string run.benchmark_name) ++ newLine ++
    indent 6 ++ FormatKV "iterations".toList (.int64 run.iterations) ++ newLine ++
    indent 6 ++ FormatKV "real_time".toList (.int64 real_time) ++ newLine ++
    indent 6 ++ FormatKV "cpu_time".toList (.int64 cpu_time) ++ newLine ++
    indent 6 ++ FormatKV "time_unit".toList (.string (timeUnitLabel run.time_unit)) ++
    bytes_per_second ++ items_per_second ++
    (if run.report_label ≠ [] then
      newLine ++ indent 6 ++ FormatKV "label".toList (.string run.report_label) else []) ++
    ['\n'])

/-- The loop of `ReportRuns`. -/
def writeRuns : List (BenchmarkReporter.Run K) → Except BuilderFault (List Char)
  | [] => .ok []
  | run :: runs => do
    let data ← PrintRunData run
    let more ← writeRuns runs
    .ok (indent 4 ++ ['{', '\n'] ++ data ++ indent 4 ++ ['}'] ++ (if runs = [] then [] else newLine) ++ more)

structure JSONReporter where
  first_report_ : Bool
  out : List Char

def JSONReporter.create : JSONReporter := ⟨true, []⟩

/-- The build and the date, which the reporter prints with the context. -/
structure Build where
  date : List Char
  NDEBUG : Bool

def Build.type (build : Build) : List Char := if build.NDEBUG then "release".toList else "debug".toList

/-- The key of a block, with its bracket. -/
def opening (key : List Char) (bracket : Char) : List Char := '"' :: (key ++ ['"', ':', ' ', bracket, '\n'])

def contextText (build : Build) (context : Context K) (mhz_per_cpu : Int) : List Char :=
  ['{', '\n'] ++ indent 2 ++ opening "context".toList '{' ++
  indent 4 ++ FormatKV "date".toList (.string build.date) ++ newLine ++
  indent 4 ++ FormatKV "num_cpus".toList (.int64 context.num_cpus) ++ newLine ++
  indent 4 ++ FormatKV "mhz_per_cpu".toList (.int64 mhz_per_cpu) ++ newLine ++
  indent 4 ++ FormatKV "cpu_scaling_enabled".toList (.bool context.cpu_scaling_enabled) ++ newLine ++
  indent 4 ++ FormatKV "library_build_type".toList (.string build.type) ++ ['\n'] ++
  indent 2 ++ ['}'] ++ newLine ++
  indent 2 ++ opening "benchmarks".toList '['

def JSONReporter.ReportContext (build : Build) (context : Context K) (s : JSONReporter) :
    Except BuilderFault (Bool × JSONReporter) := do
  let mhz_per_cpu ← RoundDouble context.mhz_per_cpu
  .ok (true, ⟨s.first_report_, s.out ++ contextText build context mhz_per_cpu⟩)

def JSONReporter.ReportRuns (sqrt : K → K) (reports : List (BenchmarkReporter.Run K)) (s : JSONReporter) :
    Except BuilderFault JSONReporter :=
  if reports = [] then .ok s
  else do
    let reports_cp ← reportsCp sqrt reports
    let text ← writeRuns reports_cp
    .ok ⟨false, s.out ++ (if s.first_report_ then [] else newLine) ++ text⟩

def JSONReporter.Finalize (s : JSONReporter) : JSONReporter :=
  ⟨s.first_report_, s.out ++ '\n' :: (indent 2 ++ [']', '\n', '}', '\n'])⟩

def jsonReporter (build : Build) (sqrt : K → K) : BenchmarkReporter JSONReporter K where
  ReportContext := JSONReporter.ReportContext build
  ReportRuns := JSONReporter.ReportRuns sqrt
  Finalize := JSONReporter.Finalize

/-! ### The report -/

def Scalar.value : Scalar → Value
  | .string s => .string s
  | .bool b => .bool b
  | .int64 n => .number n

def rateScalars (key : String) (rate : K) : List (String × Scalar) :=
  if 0 < rate then [(key, .int64 (rounded rate))] else []

def labelScalars (label : List Char) : List (String × Scalar) := if label ≠ [] then [("label", .string label)] else []

/-- The members of a run, of which the rates and the label are optional. -/
def runScalars (run : BenchmarkReporter.Run K) : List (String × Scalar) :=
  ("name", .string run.benchmark_name) :: ("iterations", .int64 run.iterations) ::
    ("real_time", .int64 (rounded (shownTime run run.real_accumulated_time))) ::
    ("cpu_time", .int64 (rounded (shownTime run run.cpu_accumulated_time))) ::
    ("time_unit", .string (timeUnitLabel run.time_unit)) ::
    (rateScalars "bytes_per_second" run.bytes_per_second ++ rateScalars "items_per_second" run.items_per_second ++
      labelScalars run.report_label)

def contextScalars (build : Build) (context : Context K) : List (String × Scalar) :=
  [("date", .string build.date), ("num_cpus", .int64 context.num_cpus),
    ("mhz_per_cpu", .int64 (rounded context.mhz_per_cpu)),
    ("cpu_scaling_enabled", .bool context.cpu_scaling_enabled), ("library_build_type", .string build.type)]

def scalarsValue (scalars : List (String × Scalar)) : Value :=
  .object (scalars.map fun scalar => (scalar.1.toList, scalar.2.value))

def jsonReport (build : Build) (context : Context K) (runs : List (BenchmarkReporter.Run K)) : Value :=
  .object [("context".toList, scalarsValue (contextScalars build context)),
    ("benchmarks".toList, .array (runs.map fun run => scalarsValue (runScalars run)))]

/-- Whether a value can be converted when it is printed. -/
def Shown (v : K) : Prop := InInt64 (rounded v)

instance (v : K) : Decidable (Shown v) := inferInstanceAs (Decidable (InInt64 _))

/-- Whether all numbers of a run can be printed. -/
structure Fits (run : BenchmarkReporter.Run K) : Prop where
  real_time : Shown (shownTime run run.real_accumulated_time)
  cpu_time : Shown (shownTime run run.cpu_accumulated_time)
  bytes_per_second : 0 < run.bytes_per_second → Shown run.bytes_per_second
  items_per_second : 0 < run.items_per_second → Shown run.items_per_second

/-! ### Reading the lines -/

theorem cString_plain {s : List Char} (h : Plain s) : cString s = s := by
  refine List.takeWhile_eq_self_iff.mpr fun c hc => decide_eq_true ?_
  rintro rfl
  exact (h _ hc).2.2 (by decide)

theorem blank_indent (width : Nat) : Blank (indent width) := by
  intro c hc
  rw [List.eq_of_mem_replicate hc]
  rfl

theorem blank_line (width : Nat) : Blank ('\n' :: indent width) :=
  List.forall_mem_cons.mpr ⟨rfl, blank_indent width⟩

/-- What `FormatKV` prints behind the colon. -/
def Scalar.text : Scalar → List Char
  | .string s => '"' :: (cString s ++ ['"'])
  | .bool b => if b then "true".toList else "false".toList
  | .int64 n => intText n

/-- Whether a scalar is read as it is printed. -/
def Scalar.readable : Scalar → Bool
  | .string s => decide (Plain s)
  | .bool _ => true
  | .int64 _ => true

theorem formatKV_eq {key : List Char} (hkey : Plain key) (scalar : Scalar) :
    FormatKV key scalar = '"' :: (key ++ '"' :: ':' :: ' ' :: scalar.text) := by
  cases scalar with
  | string s => simp [FormatKV, Scalar.text, cString_plain hkey]
  | bool b =>
    simp only [FormatKV, Scalar.text, cString_plain hkey, List.append_assoc, List.cons_append, List.nil_append]
  | int64 n => simp [FormatKV, Scalar.text]

theorem readsIff_scalar (depth : Nat) (scalar : Scalar) :
    ReadsIff (readValue (depth + 1)) (scalar.readable = true) (' ' :: scalar.text) scalar.value := by
  have hblank : Blank [' '] := by decide
  cases scalar with
  | string s =>
    have hread := readsIff_string depth (s := s) ((List.takeWhile_prefix _).length_le) cString_plain
    exact (hread.of_iff (decide_eq_true_iff (p := Plain s)).symm).blank_append hblank
  | bool b =>
    have hread : Reads (readValue (depth + 1)) (Scalar.bool b).text (some (.bool b)) := reads_bool b
    exact (hread.readsIff.of_iff (by simp [Scalar.readable])).blank_append hblank
  | int64 n =>
    have hread : Reads (readValue (depth + 1)) (Scalar.int64 n).text (some (.number n)) := reads_int n
    exact (hread.readsIff.of_iff (by simp [Scalar.readable])).blank_append hblank

/-- A scalar under its key, on a line of its own. -/
def lineText (width : Nat) (scalar : String × Scalar) : List Char :=
  '\n' :: (indent width ++ FormatKV scalar.1.toList scalar.2)

def blockText (width : Nat) (scalars : List (String × Scalar)) (closing : Nat) : List Char :=
  '{' :: ([','].intercalate (scalars.map (lineText width)) ++ '\n' :: (indent closing ++ ['}']))

def line (width : Nat) (scalar : String × Scalar) : Member :=
  ⟨'\n' :: indent width, scalar.1.toList, ' ' :: scalar.2.text, scalar.2.readable, scalar.2.value⟩

theorem written_line (width : Nat) {scalar : String × Scalar} (hkey : Plain scalar.1.toList) :
    (line width scalar).written = lineText width scalar := by
  rw [lineText, formatKV_eq hkey]
  rfl

theorem readsIff_block (depth width closing : Nat) {scalars : List (String × Scalar)} (hne : scalars ≠ [])
    (hkeys : ∀ scalar ∈ scalars, Plain scalar.1.toList) :
    ReadsIff (readValue (depth + 2)) (∀ scalar ∈ scalars, scalar.2.readable = true) (blockText width scalars closing)
      (scalarsValue scalars) := by
  have hmembers : ∀ member ∈ scalars.map (line width), member.ReadsIffAt (depth + 1) := by
    intro member hmember
    obtain ⟨scalar, hscalar, rfl⟩ := List.mem_map.mp hmember
    exact ⟨⟨_, rfl⟩, blank_line width, hkeys scalar hscalar, readsIff_scalar depth scalar.2⟩
  have hread := readsIff_members (depth + 1) (fun hnil => hne (List.map_eq_nil_iff.mp hnil)) hmembers (blank_line closing)
  have htexts : (scalars.map (line width)).map Member.written = scalars.map (lineText width) := by
    rw [List.map_map]
    exact List.map_congr_left fun scalar hscalar => written_line width (hkeys scalar hscalar)
  rw [htexts, List.map_map] at hread
  exact hread.of_iff List.forall_mem_map

theorem runScalars_ne (run : BenchmarkReporter.Run K) : runScalars run ≠ [] := by
  simp [runScalars]

theorem plain_runScalars (run : BenchmarkReporter.Run K) : ∀ scalar ∈ runScalars run, Plain scalar.1.toList := by
  have hkeys : ∀ key ∈ ["name", "iterations", "real_time", "cpu_time", "time_unit", "bytes_per_second",
      "items_per_second", "label"], Plain key.toList := by decide
  intro scalar hscalar
  apply hkeys
  revert scalar
  rw [runScalars, rateScalars, rateScalars, labelScalars]
  split_ifs
  all_goals simp

theorem plain_timeUnitLabel (unit : TimeUnit) : Plain (timeUnitLabel unit) := by
  cases unit <;> decide

theorem readable_runScalars (run : BenchmarkReporter.Run K) :
    (∀ scalar ∈ runScalars run, scalar.2.readable = true) ↔
      Plain run.benchmark_name ∧ Plain run.report_label := by
  have hunit := plain_timeUnitLabel run.time_unit
  have hnil : Plain [] := by decide
  rw [runScalars, rateScalars, rateScalars, labelScalars]
  split_ifs with hbytes hitems hlabel
  all_goals simp_all [Scalar.readable]

theorem roundDouble_eq_ok {v : K} {n : Int} : RoundDouble v = .ok n ↔ Shown v ∧ n = rounded v := int64_eq_ok

theorem rateText_eq_ok {key text : List Char} {rate : K} : rateText key rate = .ok text ↔ (0 < rate → Shown rate) ∧
    text = if 0 < rate then newLine ++ indent 6 ++ FormatKV key (.int64 (rounded rate)) else [] := by
  rw [rateText]
  split
  · rename_i hrate
    rw [bind_eq_ok, forall_prop_of_true hrate]
    constructor
    · rintro ⟨value, hvalue, htext⟩
      obtain ⟨hshown, rfl⟩ := roundDouble_eq_ok.mp hvalue
      exact ⟨hshown, (Except.ok.inj htext).symm⟩
    · rintro ⟨hshown, rfl⟩
      exact ⟨_, roundDouble_eq_ok.mpr ⟨hshown, rfl⟩, rfl⟩
  · rename_i hrate
    exact ⟨fun h => ⟨fun hpos => absurd hpos hrate, (Except.ok.inj h).symm⟩, fun h => congrArg Except.ok h.2.symm⟩

/-- A run is printed if all its numbers can be, as a block of lines. -/
theorem printRunData_eq_ok {run : BenchmarkReporter.Run K} {data : List Char} : PrintRunData run = .ok data ↔
    Fits run ∧ '{' :: '\n' :: (data ++ indent 4 ++ ['}']) = blockText 6 (runScalars run) 4 := by
  simp only [PrintRunData, bind_eq_ok]
  constructor
  · rintro ⟨real_time, hreal, cpu_time, hcpu, bytes, hbytes, items, hitems, hdata⟩
    obtain ⟨hrealShown, rfl⟩ := roundDouble_eq_ok.mp hreal
    obtain ⟨hcpuShown, rfl⟩ := roundDouble_eq_ok.mp hcpu
    obtain ⟨hbytesShown, rfl⟩ := rateText_eq_ok.mp hbytes
    obtain ⟨hitemsShown, rfl⟩ := rateText_eq_ok.mp hitems
    refine ⟨⟨hrealShown, hcpuShown, hbytesShown, hitemsShown⟩, ?_⟩
    rw [← Except.ok.inj hdata, blockText, runScalars, rateScalars, rateScalars, labelScalars]
    split_ifs
    all_goals simp [lineText, newLine]
  · rintro ⟨hfits, hdata⟩
    refine ⟨_, roundDouble_eq_ok.mpr ⟨hfits.real_time, rfl⟩, _, roundDouble_eq_ok.mpr ⟨hfits.cpu_time, rfl⟩,
      _, rateText_eq_ok.mpr ⟨hfits.bytes_per_second, rfl⟩, _, rateText_eq_ok.mpr ⟨hfits.items_per_second, rfl⟩, ?_⟩
    refine congrArg Except.ok ((List.append_left_inj (indent 4 ++ ['}'])).mp ?_)
    rw [List.append_assoc] at hdata
    refine List.cons_inj_right '\n' |>.mp (List.cons_inj_right '{' |>.mp (Eq.trans ?_ hdata.symm))
    rw [blockText, runScalars, rateScalars, rateScalars, labelScalars]
    split_ifs
    all_goals simp [lineText, newLine]

theorem printRunData_faults (run : BenchmarkReporter.Run K) : FaultsIn (PrintRunData run) (· = .intOverflow) := by
  have hrate : ∀ key (rate : K), FaultsIn (rateText key rate) (· = .intOverflow) := by
    intro key rate
    rw [rateText]
    split
    · exact (int64_faults _).bind fun value _ => .ok _ _
    · exact .ok _ _
  refine (int64_faults _).bind fun real_time _ => (int64_faults _).bind fun cpu_time _ => ?_
  exact (hrate _ _).bind fun bytes _ => (hrate _ _).bind fun items _ => .ok _ _

/-! ### Reading the document -/

def runText (run : BenchmarkReporter.Run K) : List Char :=
  indent 4 ++ blockText 6 (runScalars run) 4

/-- The texts of some runs, the first of the document or behind others. -/
def follow : Bool → List (BenchmarkReporter.Run K) → List Char
  | _, [] => []
  | first, run :: runs => (if first then [] else newLine) ++ runText run ++ follow false runs

theorem follow_append (first : Bool) (runs runs' : List (BenchmarkReporter.Run K)) :
    follow first (runs ++ runs') = follow first runs ++ follow (first && runs.isEmpty) runs' := by
  induction runs generalizing first with
  | nil => simp [follow]
  | cons run runs ih => simp [follow, ih]

theorem writeRuns_eq_ok {runs : List (BenchmarkReporter.Run K)} {text : List Char} :
    writeRuns runs = .ok text ↔ (∀ run ∈ runs, Fits run) ∧ text = follow true runs := by
  have hfollow : ∀ runs : List (BenchmarkReporter.Run K),
      (if runs = [] then [] else newLine) ++ follow true runs = follow false runs := by
    intro runs
    cases runs with
    | nil => rfl
    | cons run runs => simp [follow]
  induction runs generalizing text with
  | nil => exact ⟨fun h => ⟨by simp, (Except.ok.inj h).symm⟩, fun h => congrArg Except.ok h.2.symm⟩
  | cons run runs ih =>
    have hrun : ∀ data, '{' :: '\n' :: (data ++ indent 4 ++ ['}']) = blockText 6 (runScalars run) 4 →
        indent 4 ++ ['{', '\n'] ++ data ++ indent 4 ++ ['}'] = runText run := by
      intro data hdata
      rw [runText, ← hdata]
      simp
    rw [writeRuns, bind_eq_ok, List.forall_mem_cons]
    constructor
    · rintro ⟨data, hdata, htext⟩
      obtain ⟨more, hmore, htext⟩ := bind_eq_ok.mp htext
      obtain ⟨hfits, hblock⟩ := printRunData_eq_ok.mp hdata
      obtain ⟨hrest, rfl⟩ := ih.mp hmore
      refine ⟨⟨hfits, hrest⟩, ?_⟩
      rw [← Except.ok.inj htext, hrun data hblock, List.append_assoc, hfollow]
      rfl
    · rintro ⟨⟨hfits, hrest⟩, rfl⟩
      obtain ⟨data, hblock⟩ : ∃ data, '{' :: '\n' :: (data ++ indent 4 ++ ['}']) = blockText 6 (runScalars run) 4 := by
        refine ⟨([','].intercalate ((runScalars run).map (lineText 6)) ++ ['\n']).tail, ?_⟩
        obtain ⟨scalar, scalars, hscalars⟩ := List.exists_cons_of_ne_nil (runScalars_ne run)
        cases scalars <;> simp [blockText, hscalars, lineText]
      refine ⟨data, printRunData_eq_ok.mpr ⟨hfits, hblock⟩, bind_eq_ok.mpr ⟨_, ih.mpr ⟨hrest, rfl⟩, ?_⟩⟩
      rw [hrun data hblock, List.append_assoc, hfollow]
      rfl

theorem writeRuns_faults (runs : List (BenchmarkReporter.Run K)) : FaultsIn (writeRuns runs) (· = .intOverflow) := by
  induction runs with
  | nil => exact .ok _ _
  | cons run runs ih => exact (printRunData_faults run).bind fun data _ => ih.bind fun more _ => .ok _ _

/-- On a line of its own each. -/
theorem follow_eq_intercalate {runs : List (BenchmarkReporter.Run K)} (hne : runs ≠ []) :
    '\n' :: follow true runs = [','].intercalate (runs.map fun run => '\n' :: runText run) := by
  cases runs with
  | nil => exact absurd rfl hne
  | cons run runs =>
    induction runs generalizing run with
    | nil => simp [follow]
    | cons run' runs ih =>
      have hrest := ih run' (List.cons_ne_nil run' runs)
      rw [List.map_cons] at hrest
      rw [List.map_cons, List.map_cons, List.intercalate_cons_cons, ← hrest]
      simp [follow, newLine]

theorem follow_of_ne {runs : List (BenchmarkReporter.Run K)} (hne : runs ≠ []) (first : Bool) :
    follow first runs = (if first then [] else newLine) ++ follow true runs := by
  cases runs with
  | nil => exact absurd rfl hne
  | cons run runs => simp [follow]

omit [FloorRing K] in
theorem reportsCp_ne {sqrt : K → K} {reports runs : List (BenchmarkReporter.Run K)}
    (hruns : reportsCp sqrt reports = .ok runs) (hne : reports ≠ []) : runs ≠ [] := by
  rw [reportsCp] at hruns
  split at hruns
  · obtain ⟨result, -, heq⟩ := bind_eq_ok.mp hruns
    cases heq
    exact List.append_ne_nil_of_left_ne_nil hne _
  · cases hruns
    exact hne

theorem reportRuns_eq_ok {sqrt : K → K} {reports : List (BenchmarkReporter.Run K)} {s s' : JSONReporter} :
    s.ReportRuns sqrt reports = .ok s' ↔ ∃ runs, reportsCp sqrt reports = .ok runs ∧ (∀ run ∈ runs, Fits run) ∧
      s' = ⟨s.first_report_ && runs.isEmpty, s.out ++ follow s.first_report_ runs⟩ := by
  by_cases hnone : reports = []
  · subst hnone
    constructor
    · intro h
      exact ⟨[], rfl, by simp, by simpa [JSONReporter.ReportRuns, follow] using (Except.ok.inj h).symm⟩
    · rintro ⟨runs, hruns, -, rfl⟩
      cases hruns
      simp [JSONReporter.ReportRuns, follow]
  · have hafter : ∀ runs, reportsCp sqrt reports = .ok runs → JSONReporter.mk false (s.out ++
        (if s.first_report_ then [] else newLine) ++ follow true runs) =
          ⟨s.first_report_ && runs.isEmpty, s.out ++ follow s.first_report_ runs⟩ := by
      intro runs hruns
      have hne := reportsCp_ne hruns hnone
      rw [follow_of_ne hne s.first_report_, List.isEmpty_eq_false_iff.mpr hne, Bool.and_false, List.append_assoc]
    rw [JSONReporter.ReportRuns, if_neg hnone, bind_eq_ok]
    constructor
    · rintro ⟨runs, hruns, h⟩
      obtain ⟨text, htext, hs'⟩ := bind_eq_ok.mp h
      obtain ⟨hfits, rfl⟩ := writeRuns_eq_ok.mp htext
      exact ⟨runs, hruns, hfits, (Except.ok.inj hs').symm.trans (hafter runs hruns)⟩
    · rintro ⟨runs, hruns, hfits, rfl⟩
      refine ⟨runs, hruns, bind_eq_ok.mpr ⟨_, writeRuns_eq_ok.mpr ⟨hfits, rfl⟩, ?_⟩⟩
      exact congrArg Except.ok (hafter runs hruns)

theorem runText_starts (run : BenchmarkReporter.Run K) : Starts ']' ('\n' :: runText run) := by
  refine ⟨'{', [','].intercalate ((runScalars run).map (lineText 6)) ++ '\n' :: (indent 4 ++ ['}']), ?_, by decide⟩
  rw [runText, ← List.cons_append, skip_append (blank_line 4)]
  exact skip_cons rfl _

theorem readsIff_run (depth : Nat) (run : BenchmarkReporter.Run K) :
    ReadsIff (readValue (depth + 2)) (Plain run.benchmark_name ∧ Plain run.report_label) ('\n' :: runText run)
      (scalarsValue (runScalars run)) := by
  have hread := readsIff_block depth 6 4 (runScalars_ne run) (plain_runScalars run)
  exact (hread.of_iff (readable_runScalars run)).blank_append (blank_line 4)

/-- The array of the benchmarks. -/
theorem readsIff_benchmarks (depth : Nat) (runs : List (BenchmarkReporter.Run K)) :
    ReadsIff (readValue (depth + 3)) (∀ run ∈ runs, Plain run.benchmark_name ∧ Plain run.report_label)
      ('[' :: '\n' :: (follow true runs ++ '\n' :: (indent 2 ++ [']'])))
      (.array (runs.map fun run => scalarsValue (runScalars run))) := by
  cases runs with
  | nil =>
    have hblank : Blank ('\n' :: '\n' :: indent 2) := by decide
    have hread : Reads (readValue (depth + 3)) _ _ := reads_empty hblank
    exact hread.readsIff.of_iff (by simp)
  | cons run runs =>
    have hread := readsIff_elements (depth + 2) (List.cons_ne_nil run runs) (fun run _ => runText_starts run)
      (fun run _ => ⟨_, rfl⟩) (fun run _ => readsIff_run depth run) (blank_line 2)
    rw [← follow_eq_intercalate (List.cons_ne_nil run runs)] at hread
    exact hread

/-- The document of some runs. -/
def document (build : Build) (context : Context K) (runs : List (BenchmarkReporter.Run K)) : List Char :=
  contextText build context (rounded context.mhz_per_cpu) ++ follow true runs ++
    '\n' :: (indent 2 ++ [']', '\n', '}', '\n'])

theorem plain_contextScalars (build : Build) (context : Context K) :
    ∀ scalar ∈ contextScalars build context, Plain scalar.1.toList := by
  have hkeys : ∀ key ∈ ["date", "num_cpus", "mhz_per_cpu", "cpu_scaling_enabled", "library_build_type"],
      Plain key.toList := by decide
  intro scalar hscalar
  apply hkeys
  revert scalar
  simp [contextScalars]

theorem readable_contextScalars (build : Build) (context : Context K) :
    (∀ scalar ∈ contextScalars build context, scalar.2.readable = true) ↔ Plain build.date := by
  have htype : Plain build.type := by
    rw [Build.type]
    split
    · decide
    · decide
  simp [contextScalars, Scalar.readable, htype]

def contextMember (build : Build) (context : Context K) : Member :=
  ⟨'\n' :: indent 2, "context".toList, ' ' :: blockText 4 (contextScalars build context) 2, decide (Plain build.date),
    scalarsValue (contextScalars build context)⟩

def benchmarksMember (runs : List (BenchmarkReporter.Run K)) : Member :=
  ⟨'\n' :: indent 2, "benchmarks".toList, ' ' :: '[' :: '\n' :: (follow true runs ++ '\n' :: (indent 2 ++ [']'])),
    runs.all fun run => decide (Plain run.benchmark_name ∧ Plain run.report_label),
    .array (runs.map fun run => scalarsValue (runScalars run))⟩

theorem document_eq (build : Build) (context : Context K) (runs : List (BenchmarkReporter.Run K)) :
    document build context runs =
      '{' :: ([','].intercalate ([contextMember build context, benchmarksMember runs].map Member.written) ++
        '\n' :: ([] ++ ['}'])) ++ ['\n'] := by
  unfold document contextText contextMember benchmarksMember
  generalize "context".toList = contextKey, "benchmarks".toList = benchmarksKey
  simp only [opening, newLine, Member.written, blockText, contextScalars, lineText, List.map_cons, List.map_nil,
    List.intercalate_cons_cons, List.intercalate_singleton]
  simp only [List.append_assoc, List.cons_append, List.nil_append]

theorem document_read (build : Build) (context : Context K) (runs : List (BenchmarkReporter.Run K)) :
    Json.read (document build context runs) = some (jsonReport build context runs) ↔
      Plain build.date ∧ ∀ run ∈ runs, Plain run.benchmark_name ∧ Plain run.report_label := by
  have hblank : Blank [' '] := by decide
  rw [document_eq]
  apply read_iff
  obtain ⟨depth, hdepth⟩ : ∃ depth, ('{' :: ([','].intercalate
      ([contextMember build context, benchmarksMember runs].map Member.written) ++ '\n' :: ([] ++ ['}'])) ++
        ['\n']).length = depth + 5 := by
    refine ⟨_, Nat.sub_add_cancel ?_ |>.symm⟩
    simp [Member.written]
    omega
  have hkeys : Plain "context".toList ∧ Plain "benchmarks".toList := by decide
  have hmembers : ∀ member ∈ [contextMember build context, benchmarksMember runs], member.ReadsIffAt (depth + 4) := by
    refine List.forall_mem_cons.mpr ⟨⟨⟨_, rfl⟩, blank_line 2, hkeys.1, ?_⟩,
      List.forall_mem_singleton.mpr ⟨⟨_, rfl⟩, blank_line 2, hkeys.2, ?_⟩⟩
    · have hread := readsIff_block (depth + 2) 4 2 (by simp [contextScalars]) (plain_contextScalars build context)
      have hdate := (readable_contextScalars build context).trans decide_eq_true_iff.symm
      exact (hread.of_iff hdate).blank_append hblank
    · have hread := readsIff_benchmarks (depth + 1) runs
      exact (hread.of_iff (by simp [benchmarksMember])).blank_append hblank
  have hread := readsIff_members (depth + 4) (List.cons_ne_nil _ _) hmembers (by decide : Blank ('\n' :: []))
  rw [hdepth]
  exact hread.of_iff (by simp [contextMember, benchmarksMember])

/-! ### Running with the reporter -/

/-- Whether the texts of a run stand in the document as they should. -/
def IsPlain (run : BenchmarkReporter.Run K) : Prop := Plain run.benchmark_name ∧ Plain run.report_label

omit [Field K] [LinearOrder K] [FloorRing K] in
theorem plain_append {s t : List Char} (ht : Plain t) : Plain (s ++ t) ↔ Plain s := by
  rw [Plain, List.forall_mem_append]
  exact and_iff_left ht

omit [FloorRing K] in
/-- The runs that a reporter adds have the texts of the others. -/
theorem isPlain_reportsCp {sqrt : K → K} {reports runs : List (BenchmarkReporter.Run K)}
    (hruns : reportsCp sqrt reports = .ok runs) : (∀ run ∈ runs, IsPlain run) ↔ ∀ run ∈ reports, IsPlain run := by
  rw [reportsCp] at hruns
  split at hruns
  · obtain ⟨⟨mean, stddev⟩, hstats, heq⟩ := bind_eq_ok.mp hruns
    cases heq
    obtain ⟨-, front, hfront, -, -, rfl, rfl⟩ := computeStats_eq_ok.mp hstats
    rw [List.forall_mem_append]
    refine and_iff_left_of_imp fun hplain => ?_
    obtain ⟨hname, hlabel⟩ := hplain front (List.mem_of_head? hfront)
    have hcommon : Plain (commonLabel front reports) := by
      rw [commonLabel]
      split
      · exact hlabel
      · decide
    have hmean : Plain "_mean".toList := by decide
    have hstddev : Plain "_stddev".toList := by decide
    exact List.forall_mem_cons.mpr ⟨⟨(plain_append hmean).mpr hname, hcommon⟩,
      List.forall_mem_singleton.mpr ⟨(plain_append hstddev).mpr hname, hcommon⟩⟩
  · cases hruns
    rfl

variable [IsStrictOrderedRing K]

/-- The runs that are printed of some benchmarks, each with its place. -/
def Surroundings.printed (world : Surroundings K) (sqrt : K → K) :
    List ((String × Instance K) × Nat) → Except BuilderFault (List (BenchmarkReporter.Run K))
  | [] => .ok []
  | b :: benchmarks => do
    let runs ← reportsCp sqrt (world.reports b.2 b.1)
    let more ← world.printed sqrt benchmarks
    .ok (runs ++ more)

theorem printed_ok (world : Surroundings K) (sqrt : K → K) (benchmarks : List ((String × Instance K) × Nat)) :
    (∃ runs, world.printed sqrt benchmarks = .ok runs) ↔ ∀ b ∈ benchmarks, Counted (world.reports b.2 b.1) := by
  induction benchmarks with
  | nil => exact ⟨fun _ => by simp, fun _ => ⟨[], rfl⟩⟩
  | cons b benchmarks ih =>
    rw [List.forall_mem_cons, ← ih, ← world.reportsCp_ok sqrt]
    constructor
    · rintro ⟨runs, hruns⟩
      obtain ⟨first, hfirst, hrest⟩ := bind_eq_ok.mp hruns
      obtain ⟨more, hmore, -⟩ := bind_eq_ok.mp hrest
      exact ⟨⟨first, hfirst⟩, more, hmore⟩
    · rintro ⟨⟨first, hfirst⟩, more, hmore⟩
      exact ⟨first ++ more, bind_eq_ok.mpr ⟨first, hfirst, bind_eq_ok.mpr ⟨more, hmore, rfl⟩⟩⟩

theorem isPlain_printed {world : Surroundings K} {sqrt : K → K} {benchmarks : List ((String × Instance K) × Nat)}
    {runs : List (BenchmarkReporter.Run K)} (hruns : world.printed sqrt benchmarks = .ok runs) :
    (∀ run ∈ runs, IsPlain run) ↔ ∀ b ∈ benchmarks, ∀ run ∈ world.reports b.2 b.1, IsPlain run := by
  induction benchmarks generalizing runs with
  | nil =>
    cases hruns
    simp
  | cons b benchmarks ih =>
    obtain ⟨first, hfirst, hrest⟩ := bind_eq_ok.mp hruns
    obtain ⟨more, hmore, heq⟩ := bind_eq_ok.mp hrest
    cases heq
    rw [List.forall_mem_append, List.forall_mem_cons, isPlain_reportsCp hfirst, ih hmore]

/-- The reporter behind some benchmarks. -/
theorem foldlM_reportRuns {world : Surroundings K} {sqrt : K → K} {benchmarks : List ((String × Instance K) × Nat)}
    {s s' : JSONReporter} :
    benchmarks.foldlM (fun s b => s.ReportRuns sqrt (world.reports b.2 b.1)) s = .ok s' ↔
      ∃ runs, world.printed sqrt benchmarks = .ok runs ∧ (∀ run ∈ runs, Fits run) ∧
        s' = ⟨s.first_report_ && runs.isEmpty, s.out ++ follow s.first_report_ runs⟩ := by
  induction benchmarks generalizing s with
  | nil =>
    constructor
    · intro h
      exact ⟨[], rfl, by simp, by simpa [follow] using (Except.ok.inj h).symm⟩
    · rintro ⟨runs, hruns, -, rfl⟩
      cases hruns
      simp [follow, pure, Except.pure]
  | cons b benchmarks ih =>
    have hafter : ∀ first more : List (BenchmarkReporter.Run K), JSONReporter.mk
        ((s.first_report_ && first.isEmpty) && more.isEmpty)
        ((s.out ++ follow s.first_report_ first) ++ follow (s.first_report_ && first.isEmpty) more) =
          ⟨s.first_report_ && (first ++ more).isEmpty, s.out ++ follow s.first_report_ (first ++ more)⟩ := by
      intro first more
      have hempty : (first ++ more).isEmpty = (first.isEmpty && more.isEmpty) := by cases first <;> rfl
      rw [follow_append, List.append_assoc, hempty, Bool.and_assoc]
    rw [List.foldlM_cons, bind_eq_ok]
    constructor
    · rintro ⟨s₁, hs₁, h⟩
      obtain ⟨first, hfirst, hfits, rfl⟩ := reportRuns_eq_ok.mp hs₁
      obtain ⟨more, hmore, hfits', rfl⟩ := ih.mp h
      refine ⟨first ++ more, bind_eq_ok.mpr ⟨first, hfirst, bind_eq_ok.mpr ⟨more, hmore, rfl⟩⟩, ?_, hafter first more⟩
      exact List.forall_mem_append.mpr ⟨hfits, hfits'⟩
    · rintro ⟨runs, hruns, hfits, rfl⟩
      obtain ⟨first, hfirst, hrest⟩ := bind_eq_ok.mp hruns
      obtain ⟨more, hmore, heq⟩ := bind_eq_ok.mp hrest
      cases heq
      obtain ⟨hfits, hfits'⟩ := List.forall_mem_append.mp hfits
      exact ⟨_, reportRuns_eq_ok.mpr ⟨first, hfirst, hfits, rfl⟩, ih.mpr ⟨more, hmore, hfits', (hafter first more).symm⟩⟩

theorem runMatching_faults (world : Surroundings K) (families : List (BenchmarkImp K)) (build : Build) (sqrt : K → K)
    (s : JSONReporter) :
    FaultsIn (RunMatchingBenchmarks world families world.spec (jsonReporter build sqrt) s) (· = .intOverflow) := by
  rw [RunMatchingBenchmarks, if_neg world.spec_ne]
  cases world.compile world.spec with
  | none => exact .ok _ _
  | some accepts =>
    have hcontext : FaultsIn (JSONReporter.ReportContext build world.context s) (· = .intOverflow) :=
      (int64_faults _).bind fun mhz_per_cpu _ => .ok _ _
    have hreport : ∀ b ∈ (findBenchmarks world.format accepts families).2.zipIdx, ∀ s : JSONReporter,
        FaultsIn (s.ReportRuns sqrt (world.reports b.2 b.1)) (· = .intOverflow) := by
      intro b _ s
      rw [JSONReporter.ReportRuns]
      split
      · exact .ok _ _
      · refine (world.reportsCp_faults sqrt b.2 b.1).bind fun runs _ => ?_
        exact (writeRuns_faults runs).bind fun text _ => .ok _ _
    refine hcontext.bind fun started _ => ?_
    obtain ⟨started, s'⟩ := started
    cases started with
    | true => exact .foldlM hreport s'
    | false => exact .ok s' _

omit [IsStrictOrderedRing K] in
theorem reportContext_eq_ok {build : Build} {context : Context K} {s : JSONReporter} {result : Bool × JSONReporter} :
    s.ReportContext build context = .ok result ↔ Shown context.mhz_per_cpu ∧
      result = (true, ⟨s.first_report_, s.out ++ contextText build context (rounded context.mhz_per_cpu)⟩) := by
  rw [JSONReporter.ReportContext, bind_eq_ok]
  constructor
  · rintro ⟨mhz_per_cpu, hmhz, hresult⟩
    obtain ⟨hshown, rfl⟩ := roundDouble_eq_ok.mp hmhz
    exact ⟨hshown, (Except.ok.inj hresult).symm⟩
  · rintro ⟨hshown, rfl⟩
    exact ⟨_, roundDouble_eq_ok.mpr ⟨hshown, rfl⟩, rfl⟩

theorem runMatching_eq_ok {world : Surroundings K} {families : List (BenchmarkImp K)} {build : Build} {sqrt : K → K}
    {accepts : String → Bool} (hcompile : world.compile world.spec = some accepts) {s : JSONReporter} :
    RunMatchingBenchmarks world families world.spec (jsonReporter build sqrt) .create = .ok s ↔
      Shown world.context.mhz_per_cpu ∧
        ∃ runs, world.printed sqrt (findBenchmarks world.format accepts families).2.zipIdx = .ok runs ∧
          (∀ run ∈ runs, Fits run) ∧
          s = ⟨runs.isEmpty, contextText build world.context (rounded world.context.mhz_per_cpu) ++ follow true runs⟩ := by
  have hmatching : RunMatchingBenchmarks world families world.spec (jsonReporter build sqrt) .create =
      JSONReporter.create.ReportContext build world.context >>= fun started =>
        if started.1 then
          (findBenchmarks world.format accepts families).2.zipIdx.foldlM
            (fun s b => s.ReportRuns sqrt (world.reports b.2 b.1)) started.2
        else .ok started.2 := by
    rw [RunMatchingBenchmarks, if_neg world.spec_ne, hcompile]
    rfl
  have hafter : ∀ (text : List Char) (runs : List (BenchmarkReporter.Run K)),
      JSONReporter.mk (true && runs.isEmpty) (([] ++ text) ++ follow true runs) =
        ⟨runs.isEmpty, text ++ follow true runs⟩ := by
    intro text runs
    rw [Bool.true_and, List.nil_append]
  rw [hmatching, bind_eq_ok]
  constructor
  · rintro ⟨result, hresult, h⟩
    obtain ⟨hshown, rfl⟩ := reportContext_eq_ok.mp hresult
    obtain ⟨runs, hruns, hfits, hs⟩ := foldlM_reportRuns.mp h
    exact ⟨hshown, runs, hruns, hfits, hs.trans (hafter _ runs)⟩
  · rintro ⟨hshown, runs, hruns, hfits, rfl⟩
    exact ⟨_, reportContext_eq_ok.mpr ⟨hshown, rfl⟩, foldlM_reportRuns.mpr ⟨runs, hruns, hfits, (hafter _ runs).symm⟩⟩

/-- Two repetitions of one benchmark, on a machine where each iteration takes a second. -/
def repeated : Surroundings ℚ where
  compile := fun _ => some fun _ => true
  format := ⟨toString, fun _ => "", toString⟩
  flags := ⟨2, 0.5⟩
  benchmark_list_tests := false
  benchmark_filter := "all"
  context := ⟨4, 2400, false⟩
  outcome := fun _ _ iters => ⟨iters, iters, 0, ⟨0, 0⟩, []⟩

/-- One iteration of a second. -/
def second : BenchmarkReporter.Run ℚ := ⟨⟨[], 1, .kNanosecond, 1, 1, 0, 0⟩, "Update".toList⟩

theorem repeated_reports (k : Nat) : repeated.reports k ("Update", steady) = [second, second] := by
  have hsettle : ∀ i n, settle steady ⟨2, 0.5⟩ (repeated.outcome k) i n 1 = ⟨[1], 1, ⟨1, 1, 0, ⟨0, 0⟩, []⟩⟩ := by
    intro i n
    have henough : steady.enough ⟨2, 0.5⟩ i 1 (repeated.outcome k n 1) := by
      refine .inr (.inr (.inl ?_))
      norm_num [Instance.minTime, Instance.seconds, steady, isZero, repeated]
    rw [settle_enough henough]
    norm_num [repeated]
  have hrun : (runBenchmark steady ⟨2, 0.5⟩ (repeated.outcome k)).reports = [second.toReport, second.toReport] := by
    have htwo : (2 : Int).toNat = 2 := rfl
    simp only [runBenchmark, htwo, repetitions, hsettle]
    simp [Instance.report, steady, second]
  show ((runBenchmark steady ⟨2, 0.5⟩ (repeated.outcome k)).reports.map _) = _
  rw [hrun]
  rfl

theorem repeated_found : (findBenchmarks repeated.format (fun _ => true)
    [BenchmarkImp.create "Update" steady.benchmark]).2.zipIdx = [(("Update", steady), 0)] := by
  have hname : (BenchmarkImp.create "Update" steady.benchmark).prepare.instanceName repeated.format (-1, -1) 1 =
      "Update" := by decide +kernel
  show [((BenchmarkImp.prepare _).instanceName _ _ _, (BenchmarkImp.prepare _).instanceOf _ _)].zipIdx = _
  rw [hname]
  rfl

theorem repeated_printed : ∃ runs, repeated.printed id [(("Update", steady), 0)] = .ok runs ∧
    ∀ run ∈ runs, Fits run := by
  have hstats : ComputeStats id [second, second] = .ok (meanData (.of 1 [second, second]) second [second, second],
      stddevData id (.of 1 [second, second]) second [second, second]) :=
    computeStats_eq_ok.mpr ⟨le_rfl, second, rfl, by simp [SameRun], by decide, rfl, rfl⟩
  have hreports : reportsCp id [second, second] = .ok ([second, second] ++
      [meanData (.of 1 [second, second]) second [second, second],
        stddevData id (.of 1 [second, second]) second [second, second]]) := by
    have hlength : 2 ≤ [second, second].length := le_rfl
    rw [reportsCp, if_pos hlength, hstats]
    rfl
  refine ⟨_, bind_eq_ok.mpr ⟨_, by rw [repeated_reports]; exact hreports, rfl⟩, ?_⟩
  have hsecond : Fits second := ⟨by decide +kernel, by decide +kernel, by decide +kernel, by decide +kernel⟩
  simp only [List.append_nil, List.cons_append, List.nil_append, List.forall_mem_cons, List.not_mem_nil,
    false_imp_iff, implies_true, and_true]
  refine ⟨hsecond, hsecond, ?_, ?_⟩
  · exact ⟨by decide +kernel, by decide +kernel, by decide +kernel, by decide +kernel⟩
  · exact ⟨by decide +kernel, by decide +kernel, by decide +kernel, by decide +kernel⟩

end BenchmarkLibs.GoogleBenchmark

import Mathlib
import BenchmarkLibs.Hayai.Report

/-!
# The program

`main` parses its arguments, which filter the tests as they are parsed, and then runs the tests that are left
or lists their names. While the tests are run, each outputter that was asked for is told everything.
-/

namespace BenchmarkLibs.Hayai

inductive MainExecutionMode
  | MainRunBenchmarks
  | MainListBenchmarks
  deriving DecidableEq

inductive OutputFormat
  | Console
  | Json
  | JUnitXml
  deriving DecidableEq

/-- Why `ParseArgs` does not succeed; with an error it also shows the usage. -/
inductive ArgsError
  | usage (message : List Char)
  | help

/-- `MainRunner`, with what `ParseArgs` changes besides: the registered tests, the formatting of the console and
the residual arguments. -/
structure MainRunner (σ : Type) where
  ExecutionMode : MainExecutionMode
  ShuffleBenchmarks : Bool
  FileOutputters : List (OutputFormat × List Char)
  StdoutOutputter : Option OutputFormat
  tests : List (TestDescriptor σ)
  formattingEnabled : Bool
  residualArgs : List (List Char)

variable {σ : Type}

def isFlag (arg : List Char) (short long : String) : Bool :=
  arg = short.toList ∨ arg = long.toList

/-- The format before the colon and the path behind it. -/
def splitSpecifier (formatSpecifier : List Char) : List Char × Option (List Char) :=
  match strchr ':' formatSpecifier with
  | none => (formatSpecifier, none)
  | some path =>
    (formatSpecifier.take (formatSpecifier.length - path.length), if path.tail = [] then none else some path.tail)

def outputFormat (format : List Char) : Option OutputFormat :=
  if format = "console".toList then some .Console
  else if format = "json".toList then some .Json
  else if format = "junit".toList then some .JUnitXml
  else none

def MainRunner.addOutputter (runner : MainRunner σ) (format : OutputFormat) (path : Option (List Char)) : MainRunner σ :=
  match path with
  | some path => { runner with FileOutputters := runner.FileOutputters ++ [(format, path)] }
  | none => { runner with StdoutOutputter := some format }

def colorChoice (choice : List Char) : Option Bool :=
  if choice = "yes".toList ∨ choice = "true".toList ∨ choice = "on".toList ∨ choice = "1".toList then some true
  else if choice = "no".toList ∨ choice = "false".toList ∨ choice = "off".toList ∨ choice = "0".toList then some false
  else none

inductive ArgKind
  | empty
  | list
  | shuffle
  | filter
  | output
  | color
  | help
  | other
  deriving DecidableEq

/-- The branch that the argument takes. -/
def argKind (arg : List Char) : ArgKind :=
  if arg = [] then .empty
  else if isFlag arg "-l" "--list" then .list
  else if isFlag arg "-s" "--shuffle" then .shuffle
  else if isFlag arg "-f" "--filter" then .filter
  else if isFlag arg "-o" "--output" then .output
  else if isFlag arg "-c" "--color" then .color
  else if isFlag arg "-?" "-h" ∨ arg = "--help".toList then .help
  else .other

/-- The arguments behind the name of the program; whether there is a vector for the residual ones. -/
def ParseArgs (residual : Bool) : List (List Char) → MainRunner σ → Except ArgsError (MainRunner σ)
  | [], runner => .ok runner
  | arg :: args, runner =>
    match argKind arg with
    | .empty => ParseArgs residual args runner
    | .list => ParseArgs residual args { runner with ExecutionMode := .MainListBenchmarks }
    | .shuffle => ParseArgs residual args { runner with ShuffleBenchmarks := true }
    | .filter =>
      match args with
      | [] => .error (.usage (arg ++ " requires a pattern to be specified".toList))
      | pattern :: args =>
        if pattern = [] then .error (.usage (arg ++ " requires a pattern to be specified".toList))
        else ParseArgs residual args { runner with tests := ApplyPatternFilter pattern runner.tests }
    | .output =>
      match args with
      | [] => .error (.usage (arg ++ " requires a format to be specified".toList))
      | formatSpecifier :: args =>
        match outputFormat (splitSpecifier formatSpecifier).1 with
        | none => .error (.usage ("invalid format: ".toList ++ (splitSpecifier formatSpecifier).1))
        | some format => ParseArgs residual args (runner.addOutputter format (splitSpecifier formatSpecifier).2)
    | .color =>
      match args with
      | [] => .error (.usage (arg ++ " requires an argument of either yes or no".toList))
      | choice :: args =>
        match colorChoice choice with
        | none => .error (.usage ("invalid argument to ".toList ++ arg ++ ": ".toList ++ choice))
        | some enabled => ParseArgs residual args { runner with formattingEnabled := enabled }
    | .help => .error .help
    | .other =>
      if residual then ParseArgs residual args { runner with residualArgs := runner.residualArgs ++ [arg] }
      else .error (.usage ("unknown option: ".toList ++ arg))

/-- Before the arguments are parsed. -/
def MainRunner.initial (tests : List (TestDescriptor σ)) : MainRunner σ :=
  ⟨.MainRunBenchmarks, false, [], none, tests, true, []⟩

/-- The benchmarks in the order in which they are run; `random_shuffle` is of the standard library. -/
def MainRunner.order (random_shuffle : (tests : List (TestDescriptor σ)) → { tests' // List.Perm tests' tests })
    (runner : MainRunner σ) : List (TestDescriptor σ) :=
  if runner.ShuffleBenchmarks then random_shuffle runner.tests else runner.tests

/-- Where an outputter writes to: a file, or else the standard output. -/
structure Hooked where
  format : OutputFormat
  path : Option (List Char)
  deriving DecidableEq

/-- In the order in which they are hooked up. If there are none, the benchmarker takes one of its own. -/
def MainRunner.outputters (runner : MainRunner σ) : List Hooked :=
  let outputters := (runner.StdoutOutputter.map fun format => ⟨format, none⟩).toList ++
    runner.FileOutputters.map fun outputter => ⟨outputter.1, some outputter.2⟩
  if outputters.isEmpty then [⟨.Console, none⟩] else outputters

/-- What each outputter is told. Nothing writes to the filters `_include`. -/
def MainRunner.RunBenchmarks (random_shuffle : (tests : List (TestDescriptor σ)) → { tests' // List.Perm tests' tests })
    (Now : σ → TimePoint × σ) (runner : MainRunner σ) (s : σ) : List (Hooked × List (Call σ)) × σ :=
  let run := RunAllTests Now [] (runner.order random_shuffle) s
  (runner.outputters.map fun outputter => (outputter, run.1), run.2)

/-- What a JSON outputter writes. A file that cannot be opened leaves its stream failed but not `bad`, so that
`SetUp` goes on with it, and nothing is written to it. -/
def document (opens : List Char → Bool) (outputter : Hooked) (calls : List (Call σ)) : List Char :=
  if outputter.path.all opens then JsonOutputter.output calls else []

/-- A turn of the loop of `ListBenchmarks`, which keeps the names in a vector and in a set. -/
def listTurn (testNames : List (List Char)) (descriptor : TestDescriptor σ) : List (List Char) :=
  if descriptor.CanonicalName ∈ testNames then testNames else testNames ++ [descriptor.CanonicalName]

def MainRunner.ListBenchmarks (runner : MainRunner σ) : List (List Char) :=
  (runner.tests.foldl listTurn []).mergeSort

/-! ### Arguments -/

inductive MainOption
  | list
  | shuffle
  | filter (pattern : List Char)
  | output (format : OutputFormat) (path : Option (List Char))
  | color (enabled : Bool)
  | residual (arg : List Char)

def MainOption.apply (runner : MainRunner σ) : MainOption → MainRunner σ
  | .list => { runner with ExecutionMode := .MainListBenchmarks }
  | .shuffle => { runner with ShuffleBenchmarks := true }
  | .filter pattern => { runner with tests := ApplyPatternFilter pattern runner.tests }
  | .output format path => runner.addOutputter format path
  | .color enabled => { runner with formattingEnabled := enabled }
  | .residual arg => { runner with residualArgs := runner.residualArgs ++ [arg] }

/-- The arguments that an option is written with. -/
inductive Written (residual : Bool) : MainOption → List (List Char) → Prop
  | list {arg : List Char} (harg : argKind arg = .list) : Written residual .list [arg]
  | shuffle {arg : List Char} (harg : argKind arg = .shuffle) : Written residual .shuffle [arg]
  | filter {arg pattern : List Char} (harg : argKind arg = .filter) (hpattern : pattern ≠ []) :
      Written residual (.filter pattern) [arg, pattern]
  | output {arg formatSpecifier : List Char} {format : OutputFormat} (harg : argKind arg = .output)
      (hformat : outputFormat (splitSpecifier formatSpecifier).1 = some format) :
      Written residual (.output format (splitSpecifier formatSpecifier).2) [arg, formatSpecifier]
  | color {arg choice : List Char} {enabled : Bool} (harg : argKind arg = .color)
      (hchoice : colorChoice choice = some enabled) : Written residual (.color enabled) [arg, choice]
  | residual {arg : List Char} (hresidual : residual = true) (harg : argKind arg = .other) :
      Written residual (.residual arg) [arg]

/-- A line of options, with empty arguments between them. -/
inductive Line (residual : Bool) : List MainOption → List (List Char) → Prop
  | nil : Line residual [] []
  | blank {options : List MainOption} {args : List (List Char)} (h : Line residual options args) :
      Line residual options ([] :: args)
  | option {option : MainOption} {options : List MainOption} {words args : List (List Char)}
      (hoption : Written residual option words) (h : Line residual options args) :
      Line residual (option :: options) (words ++ args)

theorem argKind_eq_empty {arg : List Char} : argKind arg = .empty ↔ arg = [] := by
  constructor
  · intro h
    by_contra hne
    rw [argKind, if_neg hne] at h
    split_ifs at h
  · rintro rfl
    rfl

/-- A turn of the loop, by the branch that it takes. -/
theorem parseArgs_cons (residual : Bool) (arg : List Char) (args : List (List Char)) (runner : MainRunner σ) :
    ParseArgs residual (arg :: args) runner =
      match argKind arg with
      | .empty => ParseArgs residual args runner
      | .list => ParseArgs residual args (MainOption.list.apply runner)
      | .shuffle => ParseArgs residual args (MainOption.shuffle.apply runner)
      | .filter =>
        match args with
        | [] => .error (.usage (arg ++ " requires a pattern to be specified".toList))
        | pattern :: args =>
          if pattern = [] then .error (.usage (arg ++ " requires a pattern to be specified".toList))
          else ParseArgs residual args ((MainOption.filter pattern).apply runner)
      | .output =>
        match args with
        | [] => .error (.usage (arg ++ " requires a format to be specified".toList))
        | formatSpecifier :: args =>
          match outputFormat (splitSpecifier formatSpecifier).1 with
          | none => .error (.usage ("invalid format: ".toList ++ (splitSpecifier formatSpecifier).1))
          | some format =>
            ParseArgs residual args ((MainOption.output format (splitSpecifier formatSpecifier).2).apply runner)
      | .color =>
        match args with
        | [] => .error (.usage (arg ++ " requires an argument of either yes or no".toList))
        | choice :: args =>
          match colorChoice choice with
          | none => .error (.usage ("invalid argument to ".toList ++ arg ++ ": ".toList ++ choice))
          | some enabled => ParseArgs residual args ((MainOption.color enabled).apply runner)
      | .help => .error .help
      | .other =>
        if residual then ParseArgs residual args ((MainOption.residual arg).apply runner)
        else .error (.usage ("unknown option: ".toList ++ arg)) := by
  rw [ParseArgs.eq_def]
  rfl

theorem parseArgs_written {residual : Bool} {option : MainOption} {words : List (List Char)}
    (h : Written residual option words) (args : List (List Char)) (runner : MainRunner σ) :
    ParseArgs residual (words ++ args) runner = ParseArgs residual args (option.apply runner) := by
  cases h with
  | list harg => rw [List.singleton_append, parseArgs_cons, harg]
  | shuffle harg => rw [List.singleton_append, parseArgs_cons, harg]
  | filter harg hpattern =>
    rw [List.cons_append, parseArgs_cons, harg]
    exact if_neg hpattern
  | output harg hformat =>
    rw [List.cons_append, parseArgs_cons, harg]
    simp only [List.singleton_append, hformat]
  | color harg hchoice =>
    rw [List.cons_append, parseArgs_cons, harg]
    simp only [List.singleton_append, hchoice]
  | residual hresidual harg =>
    rw [List.singleton_append, parseArgs_cons, harg]
    exact if_pos hresidual

theorem line_of_parseArgs {residual : Bool} {runner' : MainRunner σ} (length : Nat) :
    ∀ (args : List (List Char)) (runner : MainRunner σ), args.length ≤ length →
      ParseArgs residual args runner = .ok runner' →
      ∃ options, Line residual options args ∧ options.foldl MainOption.apply runner = runner' := by
  induction length with
  | zero =>
    intro args runner hlength h
    obtain rfl := List.eq_nil_of_length_eq_zero (Nat.le_zero.mp hlength)
    cases h
    exact ⟨[], .nil, rfl⟩
  | succ length ih =>
    intro args runner hlength h
    -- the option that comes first, and the rest of the arguments
    have hnext : ∀ {option : MainOption} {words rest : List (List Char)}, Written residual option words →
        rest.length ≤ length → ParseArgs residual rest (option.apply runner) = .ok runner' →
        ∃ options, Line residual options (words ++ rest) ∧ options.foldl MainOption.apply runner = runner' := by
      intro option words rest hoption hrest hparse
      obtain ⟨options, hline, happly⟩ := ih rest (option.apply runner) hrest hparse
      exact ⟨option :: options, .option hoption hline, happly⟩
    cases args with
    | nil =>
      cases h
      exact ⟨[], .nil, rfl⟩
    | cons arg args =>
      have hargs : args.length ≤ length := Nat.le_of_succ_le_succ hlength
      rw [parseArgs_cons] at h
      cases hkind : argKind arg with
      | empty =>
        rw [hkind] at h
        obtain ⟨options, hline, happly⟩ := ih args runner hargs h
        obtain rfl := argKind_eq_empty.mp hkind
        exact ⟨options, .blank hline, happly⟩
      | list =>
        rw [hkind] at h
        exact hnext (.list hkind) hargs h
      | shuffle =>
        rw [hkind] at h
        exact hnext (.shuffle hkind) hargs h
      | filter =>
        rw [hkind] at h
        cases args with
        | nil => cases h
        | cons pattern args =>
          by_cases hpattern : pattern = []
          · simp only [if_pos hpattern] at h
            cases h
          · simp only [if_neg hpattern] at h
            exact hnext (.filter hkind hpattern) (Nat.le_of_succ_le hargs) h
      | output =>
        rw [hkind] at h
        cases args with
        | nil => cases h
        | cons formatSpecifier args =>
          cases hformat : outputFormat (splitSpecifier formatSpecifier).1 with
          | none =>
            simp only [hformat] at h
            cases h
          | some format =>
            simp only [hformat] at h
            exact hnext (.output hkind hformat) (Nat.le_of_succ_le hargs) h
      | color =>
        rw [hkind] at h
        cases args with
        | nil => cases h
        | cons choice args =>
          cases hchoice : colorChoice choice with
          | none =>
            simp only [hchoice] at h
            cases h
          | some enabled =>
            simp only [hchoice] at h
            exact hnext (.color hkind hchoice) (Nat.le_of_succ_le hargs) h
      | help =>
        rw [hkind] at h
        cases h
      | other =>
        rw [hkind] at h
        by_cases hresidual : residual = true
        · simp only [if_pos hresidual] at h
          exact hnext (.residual hresidual hkind) hargs h
        · simp only [if_neg hresidual] at h
          cases h

/-- The arguments are parsed exactly if they are a line of options, and then the options take effect in order. -/
theorem parseArgs_iff (residual : Bool) (args : List (List Char)) (runner runner' : MainRunner σ) :
    ParseArgs residual args runner = .ok runner' ↔
      ∃ options, Line residual options args ∧ options.foldl MainOption.apply runner = runner' := by
  constructor
  · exact line_of_parseArgs args.length args runner le_rfl
  · rintro ⟨options, hline, rfl⟩
    induction hline generalizing runner with
    | nil => rfl
    | blank _ ih =>
      rw [parseArgs_cons, argKind_eq_empty.mpr rfl]
      exact ih runner
    | option hoption _ ih =>
      rw [parseArgs_written hoption, List.foldl_cons]
      exact ih _

/-! ### What is left to run -/

/-- The patterns of the filters. -/
def filterPatterns (options : List MainOption) : List (List Char) :=
  options.filterMap fun option =>
    match option with
    | .filter pattern => some pattern
    | _ => none

theorem tests_foldl_apply (options : List MainOption) (runner : MainRunner σ) :
    (options.foldl MainOption.apply runner).tests = runner.tests.filter fun descriptor =>
      decide (∀ pattern ∈ filterPatterns options, Selected pattern descriptor.CanonicalName) := by
  induction options generalizing runner with
  | nil => simp [filterPatterns]
  | cons option options ih =>
    rw [List.foldl_cons, ih]
    cases option with
    | filter pattern =>
      have hpatterns : filterPatterns (.filter pattern :: options) = pattern :: filterPatterns options := rfl
      have htests : ((MainOption.filter pattern).apply runner).tests = ApplyPatternFilter pattern runner.tests := rfl
      rw [hpatterns, htests, applyPatternFilter_spec, List.filter_filter]
      refine List.filter_congr fun descriptor _ => ?_
      rw [Bool.eq_iff_iff, Bool.and_eq_true, decide_eq_true_eq, decide_eq_true_eq, decide_eq_true_eq,
        List.forall_mem_cons, and_comm]
    | output format path =>
      have htests : ((MainOption.output format path).apply runner).tests = runner.tests := by
        cases path <;> rfl
      rw [htests]
      rfl
    | list => rfl
    | shuffle => rfl
    | color enabled => rfl
    | residual arg => rfl

def MainOption.onStdout : MainOption → Option OutputFormat
  | .output format none => some format
  | _ => none

def MainOption.toFile : MainOption → Option (OutputFormat × List Char)
  | .output format (some path) => some (format, path)
  | _ => none

/-- The outputters that the options ask for: the last one without a path, and each one with a path. -/
def requested (options : List MainOption) : List Hooked :=
  ((options.filterMap MainOption.onStdout).getLast?.map fun format => ⟨format, none⟩).toList ++
    (options.filterMap MainOption.toFile).map fun outputter => ⟨outputter.1, some outputter.2⟩

theorem stdoutOutputter_foldl_apply (options : List MainOption) (runner : MainRunner σ) :
    (options.foldl MainOption.apply runner).StdoutOutputter =
      (options.filterMap MainOption.onStdout).getLast?.or runner.StdoutOutputter := by
  induction options generalizing runner with
  | nil => rfl
  | cons option options ih =>
    rw [List.foldl_cons, ih]
    cases option with
    | output format path =>
      cases path with
      | none =>
        have hlast : (MainOption.output format none :: options).filterMap MainOption.onStdout =
            format :: options.filterMap MainOption.onStdout := rfl
        rw [hlast, List.getLast?_cons]
        cases (options.filterMap MainOption.onStdout).getLast? <;> rfl
      | some path => rfl
    | list => rfl
    | shuffle => rfl
    | filter pattern => rfl
    | color enabled => rfl
    | residual arg => rfl

theorem fileOutputters_foldl_apply (options : List MainOption) (runner : MainRunner σ) :
    (options.foldl MainOption.apply runner).FileOutputters =
      runner.FileOutputters ++ options.filterMap MainOption.toFile := by
  induction options generalizing runner with
  | nil => exact (List.append_nil _).symm
  | cons option options ih =>
    rw [List.foldl_cons, ih]
    cases option with
    | output format path =>
      cases path with
      | none => rfl
      | some path => exact List.append_assoc _ _ _
    | list => rfl
    | shuffle => rfl
    | filter pattern => rfl
    | color enabled => rfl
    | residual arg => rfl

theorem outputters_foldl_apply (registered : List (TestDescriptor σ)) (options : List MainOption) :
    (options.foldl MainOption.apply (.initial registered)).outputters =
      if (requested options).isEmpty then [⟨.Console, none⟩] else requested options := by
  rw [MainRunner.outputters, stdoutOutputter_foldl_apply, fileOutputters_foldl_apply]
  simp [MainRunner.initial, requested]

theorem mem_foldl_listTurn (tests : List (TestDescriptor σ)) {testNames : List (List Char)} (hnodup : testNames.Nodup) :
    (tests.foldl listTurn testNames).Nodup ∧ ∀ name, name ∈ tests.foldl listTurn testNames ↔
      name ∈ testNames ∨ ∃ descriptor ∈ tests, descriptor.CanonicalName = name := by
  induction tests generalizing testNames with
  | nil => exact ⟨hnodup, fun name => by simp⟩
  | cons descriptor tests ih =>
    rw [List.foldl_cons]
    by_cases hmem : descriptor.CanonicalName ∈ testNames
    · obtain ⟨hrest, hnames⟩ := ih hnodup
      rw [listTurn, if_pos hmem]
      refine ⟨hrest, fun name => ?_⟩
      rw [hnames, List.exists_mem_cons_iff]
      constructor
      · exact Or.imp_right .inr
      · rintro (hname | rfl | hname)
        · exact .inl hname
        · exact .inl hmem
        · exact .inr hname
    · rw [listTurn, if_neg hmem]
      have hnodup' : (testNames ++ [descriptor.CanonicalName]).Nodup :=
        List.nodup_append.mpr ⟨hnodup, List.nodup_singleton _, fun name hname name' hname' heq => by
          obtain rfl := List.mem_singleton.mp hname'
          exact hmem (heq ▸ hname)⟩
      obtain ⟨hrest, hnames⟩ := ih hnodup'
      refine ⟨hrest, fun name => ?_⟩
      rw [hnames, List.exists_mem_cons_iff, List.mem_append, List.mem_singleton, or_assoc, eq_comm]

/-- Listed instead, they are named once each and in alphabetical order. -/
theorem listBenchmarks_spec (registered : List (TestDescriptor σ)) (options : List MainOption) :
    let names := (options.foldl MainOption.apply (.initial registered)).ListBenchmarks
    names.Nodup ∧ names.Pairwise (· ≤ ·) ∧
      ∀ name, name ∈ names ↔ (∃ descriptor ∈ registered, descriptor.CanonicalName = name) ∧
        ∀ pattern ∈ filterPatterns options, Selected pattern name := by
  intro names
  obtain ⟨hnodup, hmem⟩ := mem_foldl_listTurn (options.foldl MainOption.apply (.initial registered)).tests
    List.nodup_nil
  have hperm : names.Perm _ := List.mergeSort_perm _ _
  refine ⟨hperm.nodup_iff.mpr hnodup, List.pairwise_mergeSort' _ _, fun name => ?_⟩
  rw [hperm.mem_iff, hmem, tests_foldl_apply]
  simp only [List.not_mem_nil, false_or, List.mem_filter, decide_eq_true_eq]
  constructor
  · rintro ⟨descriptor, ⟨hregistered, hselected⟩, rfl⟩
    exact ⟨⟨descriptor, hregistered, rfl⟩, hselected⟩
  · rintro ⟨⟨descriptor, hregistered, rfl⟩, hselected⟩
    exact ⟨descriptor, ⟨hregistered, hselected⟩, rfl⟩

end BenchmarkLibs.Hayai

import PacketTrace.Command.Output
import PacketTrace.Report.Aggregate

/-!
# `Command.Analyze` — from a trace file to its report

The analysis reads the trace, then writes the report as text, then in JSON if that is wanted. The first
step that fails ends it, and only a complete analysis prints anything.

## Contents
- **Options.** `AnalyzeOptions`, and `AnalyzeOptions.fault?` for those that are refused.
- **Failures.** `AnalyzeError` with its causes.
- **The analysis.** `analyzeFile`, `completionText` and `analyze`.
-/

namespace PacketTrace

/-! ## Options -/

/-- What to analyse and where to put the results. -/
structure AnalyzeOptions where
  inputFile : Path := []
  outputFile : Path := "analysis_results.txt".toList
  outputJson : Option Path := none
  /-- How many unreadable lines the report may quote. -/
  maxProblemLines : Nat := 10
  /-- Whether the report is printed too. -/
  printSummary : Bool := false
  deriving DecidableEq, Repr

/-- Why options are refused. -/
inductive OptionFault where
  | emptyInput
  | emptyOutput
  | outputIsInput
  | jsonIsOutput
  | tooManySamples
  deriving DecidableEq, Repr

/-- Why options are refused, in one line. -/
def OptionFault.message : OptionFault → Text
  | emptyInput => "Input file cannot be empty".toList
  | emptyOutput => "Output file cannot be empty".toList
  | outputIsInput => "Output file would overwrite the input trace".toList
  | jsonIsOutput => "JSON output must differ from the text report path".toList
  | tooManySamples => "samples is too large (max 1000)".toList

/-- The largest number of lines that a report may quote. -/
def maxSamples : Nat := 1000

/-- The first reason to refuse some options. Paths are compared by their form only. -/
def AnalyzeOptions.fault? (o : AnalyzeOptions) : Option OptionFault :=
  if o.inputFile = [] then some .emptyInput
  else if o.outputFile = [] then some .emptyOutput
  else if Path.sameForm o.outputFile o.inputFile then some .outputIsInput
  else if o.outputJson.any (Path.sameForm · o.outputFile) then some .jsonIsOutput
  else if maxSamples < o.maxProblemLines then some .tooManySamples
  else none

/-! ## Failures -/

/-- Why an analysis fails. -/
inductive AnalyzeError where
  | inputNotFound (p : Path)
  /-- The trace is there and cannot be opened. -/
  | inputNotOpened (e : SystemError)
  /-- The trace is open and cannot be read. -/
  | inputNotRead (p : Path) (e : SystemError)
  | textNotWritten (e : OutputError)
  | jsonNotWritten (e : OutputError)
  deriving DecidableEq, Repr

/-- The failure and its causes, outermost first. -/
def AnalyzeError.chain : AnalyzeError → List Text
  | inputNotFound p => ["Input file not found: ".toList ++ p]
  | inputNotOpened e => ["Failed to read trace: ".toList ++ e.message, e.message]
  | inputNotRead p e =>
    ["Failed while reading ".toList ++ p, "Failed to read trace: ".toList ++ e.message, e.message]
  | textNotWritten e => "Failed to write text report".toList :: e.chain
  | jsonNotWritten e => "Failed to write JSON report".toList :: e.chain

/-! ## The analysis -/

section

variable {m : Type → Type} [Monad m] [Disk m]

/-- The report on a trace file. -/
def analyzeFile (p : Path) (samples : Nat) : m (Except AnalyzeError Report) := do
  match ← Disk.read p with
  | .ok content => return .ok (aggregateBytes content samples)
  | .error (.opening .notFound) => return .error (.inputNotFound p)
  | .error (.opening e) => return .error (.inputNotOpened e)
  | .error (.reading e) => return .error (.inputNotRead p e)

/-- A line across the screen. -/
def rule : Text := List.replicate 80 '='

/-- What is printed at the end of an analysis. -/
def completionText (o : AnalyzeOptions) (header : ReportHeader) (r : Report) : Text :=
  (if o.printSummary then
    '\n' :: Report.textLine rule ++ r.render header ++ Report.textLine rule
  else []) ++
  Report.textLine ("Analysis complete. Results saved to ".toList ++ o.outputFile) ++
  Report.textLine ("Parsed: ".toList ++ Numeral.decimal r.parsedLines ++ " lines, Failed: ".toList ++
    Numeral.decimal r.failedLines) ++
  Report.textLine ("Success rate: ".toList ++ Fixed.render 1 r.successRate ++ ['%'])

/-- Analyse a trace at the given time: the report and what is printed. Options are not checked again. -/
def analyze (o : AnalyzeOptions) (now : Text) : m (Except AnalyzeError Report × Text) := do
  match ← analyzeFile o.inputFile o.maxProblemLines with
  | .error e => return (.error e, [])
  | .ok report =>
    let header : ReportHeader := { inputFile := o.inputFile, generatedAt := now }
    match ← writeText report header o.outputFile with
    | .error e => return (.error (.textNotWritten e), [])
    | .ok () =>
      match o.outputJson with
      | none => return (.ok report, completionText o header report)
      | some p =>
        match ← writeJson report header p with
        | .error e => return (.error (.jsonNotWritten e), [])
        | .ok () => return (.ok report, completionText o header report)

end

end PacketTrace

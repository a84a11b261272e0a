import PacketTrace.Command.Analyze

/-!
# `Command.Line` — the command line

The arguments of a command line are read from left to right; the first argument that cannot be
understood, or that asks for help or for the version, decides. What is missing is noticed at the end.

## Contents
- **Requests.** `Request` is what a command line asks for and `Stop` why its reading ends early.
- **Arguments.** `Arguments.take` and its helpers read them into `Arguments`; `Request.ofArguments` is
  the whole command line.
- **Running.** `Exit` is what a run leaves behind and `run` runs a command line.
-/

namespace PacketTrace

/-! ## Requests -/

/-- Why the reading of a command line ends early. -/
inductive Stop where
  | usage
  | help
  | version
  deriving DecidableEq, Repr

/-- What a command line asks for. -/
inductive Request where
  | analyze (o : AnalyzeOptions)
  | stop (why : Stop)
  deriving DecidableEq, Repr

/-! ## Arguments -/

/-- What the arguments so far have given. -/
structure Arguments where
  input : Option Path := none
  output : Option Path := none
  json : Option Path := none
  samples : Option Nat := none
  summary : Bool := false
  verbose : Bool := false

namespace Arguments

/-- An option that takes a value. -/
inductive Valued where
  | output
  | json
  | samples
  deriving DecidableEq, Repr

/-- A number as an argument: digits, perhaps after a plus sign, up to the largest word. -/
def number? (t : Text) : Option Nat := do
  let digits := match t with
    | '+' :: rest => rest
    | _ => t
  let (run, rest) ← Numeral.leadingDigits? digits
  if rest.isEmpty then Numeral.word? run else none

/-- A path as an argument; it cannot be empty. -/
def path? (t : Text) : Option Path := if t.isEmpty then none else some t

/-- Fill a place that must still be free. -/
def fill {α : Type} (place value : Option α) : Except Stop (Option α) :=
  match place, value with
  | none, some v => .ok (some v)
  | _, _ => .error .usage

/-- Set a switch that must still be off. -/
def turnOn (switch : Bool) : Except Stop Bool := if switch then .error .usage else .ok true

/-- The value of an option. -/
def setValue (a : Arguments) (option : Valued) (value : Text) : Except Stop Arguments := do
  match option with
  | .output => return { a with output := ← fill a.output (path? value) }
  | .json => return { a with json := ← fill a.json (path? value) }
  | .samples => return { a with samples := ← fill a.samples (number? value) }

/-- The input, which is the only argument that belongs to no option. -/
def setInput (a : Arguments) (value : Text) : Except Stop Arguments := do
  return { a with input := ← fill a.input (path? value) }

/-- What an argument leaves to do. -/
inductive Next where
  | done (a : Arguments)
  /-- The next argument is the value of this option. -/
  | valueDue (option : Valued)

/-- An option by its long name, perhaps with a value after an equals sign. -/
def takeLong (a : Arguments) (name : Text) (value : Option Text) : Except Stop Next := do
  let valued (option : Valued) : Except Stop Next :=
    match value with
    | some v => Next.done <$> a.setValue option v
    | none => .ok (.valueDue option)
  if name = "output".toList then valued .output
  else if name = "json".toList then valued .json
  else if name = "samples".toList then valued .samples
  else if value.isSome then throw .usage
  else if name = "summary".toList then return .done { a with summary := ← turnOn a.summary }
  else if name = "verbose".toList then return .done { a with verbose := ← turnOn a.verbose }
  else if name = "help".toList then throw .help
  else if name = "version".toList then throw .version
  else throw .usage

/-- Options by their letters. The value of an option may follow its letter at once. -/
def takeLetters (a : Arguments) : Text → Except Stop Next
  | [] => return .done a
  | 'o' :: [] => return .valueDue .output
  | 'o' :: '=' :: value => Next.done <$> a.setValue .output value
  | 'o' :: value => Next.done <$> a.setValue .output value
  | 'v' :: rest => do takeLetters { a with verbose := ← turnOn a.verbose } rest
  | 'h' :: _ => throw .help
  | 'V' :: _ => throw .version
  | _ :: _ => throw .usage

/-- Whether an argument is written like an option. A single hyphen is not. -/
def looksLikeOption : Text → Bool
  | '-' :: _ :: _ => true
  | _ => false

/-- Read one argument. -/
def takeOne (a : Arguments) (argument : Text) : Except Stop Next :=
  match argument with
  | '-' :: '-' :: long =>
    let name := long.takeWhile (· != '=')
    a.takeLong name (if name.length = long.length then none else some (long.drop (name.length + 1)))
  | '-' :: letter :: letters => a.takeLetters (letter :: letters)
  | _ => Next.done <$> a.setInput argument

/-- Read all arguments. After two hyphens nothing is an option any more. -/
def take (a : Arguments) (due : Option Valued) : List Text → Except Stop Arguments
  | [] => if due.isSome then .error .usage else .ok a
  | argument :: rest =>
    match due with
    | some option =>
      if looksLikeOption argument then .error .usage
      else do take (← a.setValue option argument) none rest
    | none =>
      if argument = ['-', '-'] then rest.foldlM setInput a
      else do
        match ← a.takeOne argument with
        | .done a => take a none rest
        | .valueDue option => take a (some option) rest

/-- The options of the analysis that the arguments ask for; the input must be among them. -/
def options (a : Arguments) : Except Stop AnalyzeOptions := do
  let some inputFile := a.input | throw .usage
  let usual : AnalyzeOptions := {}
  return {
    inputFile
    outputFile := a.output.getD usual.outputFile
    outputJson := a.json
    maxProblemLines := a.samples.getD usual.maxProblemLines
    printSummary := a.summary }

end Arguments

/-- What a command line asks for. -/
def Request.ofArguments (arguments : List Text) : Request :=
  match Arguments.take {} none arguments >>= Arguments.options with
  | .ok o => .analyze o
  | .error why => .stop why

/-! ## Running -/

/-- What a run leaves behind, apart from files. -/
structure Exit where
  code : Nat
  output : Text := []
  errorOutput : Text := []
  deriving DecidableEq, Repr

/-- The name and the version of the program. -/
def versionText : Text := Report.textLine "trace-analyzer 0.1.0".toList

/-- How the program is called. -/
def usageText : Text := Report.textLine "Usage: trace-analyzer [OPTIONS] <INPUT_FILE>".toList

/-- The help page. -/
def helpText : Text :=
  Report.textLine
    "Traffic metrics and retransmission analysis for ns-3 ASCII packet traces".toList ++
  ['\n'] ++ usageText ++
  "
Arguments:
  <INPUT_FILE>  Input trace file (e.g. bbr-experiment.tr)

Options:
  -o, --output <OUTPUT>    Output file for the text report [default: analysis_results.txt]
      --json <JSON>        Also write the report as JSON to this path
      --samples <SAMPLES>  Number of unparsable lines to include in the report [default: 10]
      --summary            Print the full report to stdout
  -v, --verbose            Enable verbose logging
  -h, --help               Print help
  -V, --version            Print version
".toList

/-- A cause with every line of it behind a margin. -/
def indented (first margin : Text) (cause : Text) : Text :=
  first ++ Text.join ('\n' :: margin) (Text.split '\n' cause)

/-- The number of a cause in a list of several, in a column of five characters. -/
def causeNumber (n : Nat) : Text :=
  let digits := Numeral.decimal n
  List.replicate (5 - digits.length) ' ' ++ digits ++ ": ".toList

/-- Numbered causes, one after the other. -/
def numberedCauses : Nat → List Text → Text
  | _, [] => []
  | n, cause :: rest =>
    '\n' :: indented (causeNumber n) (List.replicate 7 ' ') cause ++ numberedCauses (n + 1) rest

/-- A failure with its causes, outermost first. A single cause is not numbered. -/
def failureText : List Text → Text
  | [] => []
  | outermost :: causes =>
    let margin := List.replicate 4 ' '
    "Error: ".toList ++ outermost ++
    (match causes with
    | [] => []
    | [cause] => "\n\nCaused by:\n".toList ++ indented margin margin cause
    | several => "\n\nCaused by:".toList ++ numberedCauses 0 several) ++
    ['\n']

/-- Run a command line at the given time. -/
def run {m : Type → Type} [Monad m] [Disk m] (arguments : List Text) (now : Text) : m Exit := do
  match Request.ofArguments arguments with
  | .stop .usage => return { code := 2, errorOutput := usageText }
  | .stop .help => return { code := 0, output := helpText }
  | .stop .version => return { code := 0, output := versionText }
  | .analyze o =>
    match o.fault? with
    | some fault => return { code := 1, errorOutput := failureText [fault.message] }
    | none =>
      match ← analyze o now with
      | (.ok _, printed) => return { code := 0, output := printed }
      | (.error e, printed) =>
        return { code := 1, output := printed, errorOutput := failureText e.chain }

end PacketTrace

import PacketTrace.Files.Disk
import PacketTrace.Report.Saved
import PacketTrace.Report.Text

/-!
# `Command.Output` — reports in files

A report is written as text or in JSON, and read back from JSON. Directories above a file are made when
they are missing; a path that is a directory is refused before anything is touched.

## Contents
- **Failures.** `OutputError` with its messages.
- **Paths.** `checkOutput` and `prepareOutput`.
- **Files.** `writeText`, `writeJson` and `loadJson`.
-/

namespace PacketTrace

/-! ## Failures -/

/-- What is wrong with the path of an output file. -/
inductive PathFault where
  | empty
  | isDirectory (p : Path)
  | cannotCreate (p : Path) (e : SystemError)
  deriving DecidableEq, Repr

/-- What is wrong with the path. -/
def PathFault.message : PathFault → Text
  | empty => "Path is empty".toList
  | isDirectory p => "Path is a directory: ".toList ++ p
  | cannotCreate p e => "Cannot create directory ".toList ++ p ++ ": ".toList ++ e.message

/-- Why a report cannot be written or loaded. -/
inductive OutputError where
  /-- The file cannot be opened or written. -/
  | fileFailed (e : SystemError)
  | invalidPath (fault : PathFault)
  /-- The file is open and cannot be read. -/
  | unreadable (e : SystemError)
  /-- The file is no saved report. -/
  | malformed (fault : Json.ReadError)
  | unsupportedVersion (version : Text)
  deriving DecidableEq, Repr

namespace OutputError

/-- What is wrong with a text that is no saved report. -/
def faultText : Json.ReadError → Text
  | .badGrammar => "bad grammar".toList
  | .badContent => "unexpected content".toList
  | .endOfText => "unexpected end of text".toList

/-- The failure in one line. -/
def message : OutputError → Text
  | fileFailed e => "Failed to write file: ".toList ++ e.message
  | invalidPath fault => "Invalid output path: ".toList ++ fault.message
  | unreadable e => "Failed to serialize JSON: ".toList ++ e.message
  | malformed fault => "Failed to serialize JSON: ".toList ++ faultText fault
  | unsupportedVersion version => "Unsupported report schema version: ".toList ++ version

/-- The failure and its causes, outermost first. -/
def chain : OutputError → List Text
  | fileFailed e => [message (fileFailed e), e.message]
  | e => [message e]

end OutputError

section

variable {m : Type → Type} [Monad m] [Disk m]

/-! ## Paths -/

/-- Refuse the empty path and directories. -/
def checkOutput (p : Path) : m (Except OutputError Unit) := do
  if p = [] then return .error (.invalidPath .empty)
  if (← Disk.kindAt? p) = some .directory then return .error (.invalidPath (.isDirectory p))
  return .ok ()

/-- Check the path of an output file and make the directories above it. -/
def prepareOutput (p : Path) : m (Except OutputError Unit) := do
  match ← checkOutput p with
  | .error e => return .error e
  | .ok () =>
    match Path.parent? p with
    | none | some [] => return .ok ()
    | some parent =>
      if (← Disk.kindAt? parent).isSome then return .ok ()
      match ← makeDirectories parent with
      | .ok () => return .ok ()
      | .error e => return .error (.invalidPath (.cannotCreate parent e))

/-! ## Files -/

/-- Write an output file, the old content of which is lost. -/
def writeOutput (p : Path) (content : Bytes) : m (Except OutputError Unit) := do
  match ← prepareOutput p with
  | .error e => return .error e
  | .ok () =>
    match ← Disk.write p content with
    | .error e => return .error (.fileFailed e)
    | .ok () => return .ok ()

/-- Write a report as text. -/
def writeText (r : Report) (header : ReportHeader) (p : Path) : m (Except OutputError Unit) :=
  writeOutput p (Utf8.encode (r.render header))

/-- Write a report in JSON. -/
def writeJson (r : Report) (header : ReportHeader) (p : Path) : m (Except OutputError Unit) :=
  writeOutput p (SavedReport.ofReport header r).bytes

/-- Load a report that was written in JSON. -/
def loadJson (p : Path) : m (Except OutputError SavedReport) := do
  match ← Disk.read p with
  | .error (.opening e) => return .error (.fileFailed e)
  | .error (.reading e) => return .error (.unreadable e)
  | .ok content =>
    match SavedReport.ofBytes content with
    | .ok saved => return .ok saved
    | .error (.malformed fault) => return .error (.malformed fault)
    | .error (.unsupportedVersion version) => return .error (.unsupportedVersion version)

end

end PacketTrace

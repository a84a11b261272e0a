import PacketTrace.Json.Container
import PacketTrace.Json.Layout
import PacketTrace.Report.Basic

/-!
# `Report.Saved` — reports in JSON

A saved report is a report with its header and the version of the format. The version has a major part
before its first point; a reader accepts the files of its own major version.

## Contents
- **Writing.** `SavedReport.document` and `SavedReport.bytes`.
- **Fields.** `FieldValue` and the schemas of a report and of a quoted line.
- **Reading.** `SavedReport.read` reads a document and `SavedReport.ofBytes` also checks its version.
-/

namespace PacketTrace

/-- A report as it is saved. -/
structure SavedReport where
  version : Text
  header : ReportHeader
  report : Report

namespace SavedReport

open Json

/-! ## Writing -/

/-- The version of the files that are written. -/
def currentVersion : Text := "1.0.0".toList

/-- A report with its header, in the current version. -/
def ofReport (header : ReportHeader) (report : Report) : SavedReport :=
  { version := currentVersion, header, report }

/-- An entry of a distribution, as a name and a count. -/
def entryDocument (name : Text) (n : Nat) : Doc := array [ofText name, ofCount n]

/-- A quoted line. -/
def problemDocument (p : ProblemLine) : Doc :=
  object [("line_number".toList, ofCount p.lineNumber), ("text".toList, ofText p.text)]

/-- A member that is left out when there is no value. -/
def optionalMember (name : String) : Option Float → List (Text × Doc)
  | none => []
  | some x => [(name.toList, ofFloat x)]

/-- A report, field by field. -/
def reportDocument (r : Report) : Doc :=
  object (
    [("parsed_lines".toList, ofCount r.parsedLines),
     ("failed_lines".toList, ofCount r.failedLines),
     ("success_rate".toList, ofFloat r.successRate),
     ("event_types".toList, array (r.eventTypes.map fun e => entryDocument e.1.name e.2)),
     ("total_packets".toList, ofCount r.totalPackets),
     ("retransmitted_packets".toList, ofCount r.retransmittedPackets),
     ("retransmission_rate".toList, ofFloat r.retransmissionRate),
     ("total_bytes".toList, ofCount r.totalBytes)] ++
    optionalMember "start_time" r.startTime ++
    optionalMember "end_time" r.endTime ++
    [("duration".toList, ofFloat r.duration),
     ("throughput_bps".toList, ofFloat r.throughputBps),
     ("packet_types".toList, array (r.packetTypes.map fun e => entryDocument e.1.name e.2)),
     ("unique_flows".toList, ofCount r.uniqueFlows),
     ("avg_packets_per_flow".toList, ofFloat r.avgPacketsPerFlow),
     ("synthetic_seqs".toList, ofCount r.syntheticSeqs),
     ("problem_lines".toList, array (r.problemLines.map problemDocument))])

/-- A saved report. -/
def document (s : SavedReport) : Doc :=
  object
    [("version".toList, ofText s.version),
     ("input_file".toList, ofText s.header.inputFile),
     ("generated_at".toList, ofText s.header.generatedAt),
     ("report".toList, reportDocument s.report)]

/-- The content of the file. -/
def bytes (s : SavedReport) : Bytes := Utf8.encode (s.document 0)

/-! ## Fields -/

/-- What a field of a report holds. -/
inductive FieldValue where
  | count (n : Nat)
  | figure (x : Float)
  | time (x : Option Float)
  | events (entries : List (EventKind × Nat))
  | packets (entries : List (Bucket × Nat))
  | problems (lines : List ProblemLine)

/-- What a field of a quoted line holds. -/
inductive ProblemField where
  | count (n : Nat)
  | text (t : Text)

open Json.Reader in
/-- The fields of a quoted line. -/
def problemSchema : List (Text × Reader ProblemField) :=
  [("line_number".toList, .count <$> count), ("text".toList, .text <$> text)]

/-- The quoted line with the given fields, if none is missing. -/
def problemOfFields? (fields : List (Text × ProblemField)) : Option ProblemLine := do
  let .count lineNumber ← fields.lookup "line_number".toList | none
  let .text text ← fields.lookup "text".toList | none
  return { lineNumber, text }

open Json.Reader in
/-- A quoted line. -/
def readProblem : Reader ProblemLine := do
  match problemOfFields? (← record problemSchema) with
  | some line => return line
  | none => throw .badContent

open Json.Reader in
/-- The fields of a report. -/
def reportSchema : List (Text × Reader FieldValue) :=
  [("parsed_lines".toList, .count <$> count),
   ("failed_lines".toList, .count <$> count),
   ("success_rate".toList, .figure <$> float),
   ("event_types".toList, .events <$> list (pair (enumerated EventKind.ofName?) count)),
   ("total_packets".toList, .count <$> count),
   ("retransmitted_packets".toList, .count <$> count),
   ("retransmission_rate".toList, .figure <$> float),
   ("total_bytes".toList, .count <$> count),
   ("start_time".toList, .time <$> optionalFloat),
   ("end_time".toList, .time <$> optionalFloat),
   ("duration".toList, .figure <$> float),
   ("throughput_bps".toList, .figure <$> float),
   ("packet_types".toList, .packets <$> list (pair (enumerated Bucket.ofName?) count)),
   ("unique_flows".toList, .count <$> count),
   ("avg_packets_per_flow".toList, .figure <$> float),
   ("synthetic_seqs".toList, .count <$> count),
   ("problem_lines".toList, .problems <$> list readProblem)]

/-- The count in a field. -/
def countField? (fields : List (Text × FieldValue)) (name : String) : Option Nat :=
  match fields.lookup name.toList with
  | some (.count n) => some n
  | _ => none

/-- The figure in a field. -/
def figureField? (fields : List (Text × FieldValue)) (name : String) : Option Float :=
  match fields.lookup name.toList with
  | some (.figure x) => some x
  | _ => none

/-- The time in a field, which may be missing. -/
def timeField (fields : List (Text × FieldValue)) (name : String) : Option Float :=
  match fields.lookup name.toList with
  | some (.time x) => x
  | _ => none

/-- The report with the given fields, if none is missing; only the two times may be. -/
def reportOfFields? (fields : List (Text × FieldValue)) : Option Report := do
  let .events eventTypes ← fields.lookup "event_types".toList | none
  let .packets packetTypes ← fields.lookup "packet_types".toList | none
  let .problems problemLines ← fields.lookup "problem_lines".toList | none
  return {
    parsedLines := ← countField? fields "parsed_lines"
    failedLines := ← countField? fields "failed_lines"
    successRate := ← figureField? fields "success_rate"
    eventTypes
    totalPackets := ← countField? fields "total_packets"
    retransmittedPackets := ← countField? fields "retransmitted_packets"
    retransmissionRate := ← figureField? fields "retransmission_rate"
    totalBytes := ← countField? fields "total_bytes"
    startTime := timeField fields "start_time"
    endTime := timeField fields "end_time"
    duration := ← figureField? fields "duration"
    throughputBps := ← figureField? fields "throughput_bps"
    packetTypes
    uniqueFlows := ← countField? fields "unique_flows"
    avgPacketsPerFlow := ← figureField? fields "avg_packets_per_flow"
    syntheticSeqs := ← countField? fields "synthetic_seqs"
    problemLines }

open Json.Reader in
/-- A report. -/
def readReport : Reader Report := do
  match reportOfFields? (← record reportSchema) with
  | some report => return report
  | none => throw .badContent

/-! ## Reading -/

/-- What is known of a saved report while its members are read. -/
structure Draft where
  version : Option Text := none
  report : Option Report := none
  /-- The other members, in order; a value is kept only if it is a string. -/
  others : List (Text × Option Text) := []

/-- How many containers may stand inside each other in a member that does not belong to the format. -/
def maxDepth : Nat := 126

open Json.Reader in
/-- One more member of a saved report, after its name. -/
def takeMember (draft : Draft) (name : Text) : Reader Draft := do
  if name = "version".toList then
    if draft.version.isSome then throw .badContent
    separator
    return { draft with version := some (← text) }
  else if name = "report".toList then
    if draft.report.isSome then throw .badContent
    separator
    return { draft with report := some (← readReport) }
  else
    separator
    return { draft with others := draft.others ++ [(name, ← skipValue strict maxDepth)] }

/-- The string under a name that must be given exactly once. -/
def headerField? (others : List (Text × Option Text)) (name : String) : Option Text :=
  match others.filter (·.1 = name.toList) with
  | [(_, value)] => value
  | _ => none

/-- The saved report that a draft has become, if nothing is missing. -/
def ofDraft? (draft : Draft) : Option SavedReport := do
  return {
    version := ← draft.version
    report := ← draft.report
    header :=
      { inputFile := ← headerField? draft.others "input_file"
        generatedAt := ← headerField? draft.others "generated_at" } }

open Json.Reader in
/-- A saved report. It must be an object; its header is not an object of its own. -/
def read : Reader SavedReport := do
  if (← peekByte) = openBrace then
    match ofDraft? (← members string takeMember {}) with
    | some saved => return saved
    | none => throw .badContent
  else wrongType

/-- Why a file could not be loaded. -/
inductive LoadError where
  | malformed (fault : ReadError)
  | unsupportedVersion (version : Text)
  deriving DecidableEq, Repr

/-- The part of a version before its first point. -/
def majorVersion (version : Text) : Text := version.takeWhile (· != '.')

/-- The saved report in a file. The version is looked at once the whole file has been read. -/
def ofBytes (content : Bytes) : Except LoadError SavedReport :=
  match Reader.whole read content with
  | .error fault => .error (.malformed fault)
  | .ok saved =>
    if majorVersion saved.version = majorVersion currentVersion then .ok saved
    else .error (.unsupportedVersion saved.version)

end SavedReport

end PacketTrace

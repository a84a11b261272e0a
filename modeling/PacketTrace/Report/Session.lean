import PacketTrace.Event.Classify
import PacketTrace.FlowTable
import PacketTrace.Report.Metrics

/-!
# `Report.Session` — one pass over a trace

A session takes the lines of a trace in order and can give the report on what it has taken so far at any
point. It holds what the report needs and nothing of the lines themselves, apart from the samples of
lines that could not be read.

## Contents
- **The state.** `Session`, which starts empty with a limit for the samples.
- **Taking lines.** `Session.feedEvent`, `Session.recordFailure` and `Session.feedLine`, which uses them.
- **The report.** `Session.report`.
-/

namespace PacketTrace

/-! ## The state -/

/-- What has been counted so far. -/
structure Session where
  /-- How many unreadable lines the report may quote. -/
  maxProblemLines : Nat := 10
  parsedLines : Nat := 0
  failedLines : Nat := 0
  problemLines : List ProblemLine := []
  eventTypes : Tally EventKind := {}
  packetTypes : Tally Bucket := {}
  startTime : Option Float := none
  /-- The latest time, or zero before the first event. -/
  latestTime : Float := 0.0
  totalPackets : Nat := 0
  retransmittedPackets : Nat := 0
  totalBytes : Nat := 0
  syntheticSeqs : Nat := 0
  flows : FlowTable := {}

/-- What became of a line. -/
inductive LineOutcome where
  | blank
  | parsed
  | failed
  deriving DecidableEq, Repr

/-- The later of two times; a time that is no number is never later. -/
def laterTime (a b : Float) : Float := if a < b then b else a

namespace Session

/-! ## Taking lines -/

/-- Count what every event counts for: its kind, its time, its packet kind and the source of its
    sequence number. -/
def countEvent (s : Session) (e : Event) : Session :=
  { s with
    parsedLines := s.parsedLines + 1
    eventTypes := s.eventTypes.increment e.kind
    startTime := some (s.startTime.getD e.time)
    latestTime := laterTime s.latestTime e.time
    packetTypes := s.packetTypes.increment (.packet e.packetKind)
    syntheticSeqs := if e.seqSource = .synthetic then s.syntheticSeqs + 1 else s.syntheticSeqs }

/-- Count a data or acknowledgement packet: its bytes, and whether its flow has seen it before. -/
def countPacket (s : Session) (e : Event) : Session :=
  let s :=
    { s with
      totalPackets := s.totalPackets + 1
      totalBytes := min (s.totalBytes + e.packetSize) maxWord }
  match s.flows.observe ⟨e.nodeId, e.seq⟩ with
  | (.new, flows) => { s with flows }
  | (.retransmission, flows) =>
    { s with
      flows
      retransmittedPackets := s.retransmittedPackets + 1
      packetTypes := s.packetTypes.increment .retransmissions }

/-- Take an event. -/
def feedEvent (s : Session) (e : Event) : Session :=
  if e.packetKind.countsForFlows then (s.countEvent e).countPacket e else s.countEvent e

/-- A line is quoted only if it is longer than this, without the blanks around it. -/
def minQuotedLength : Nat := 10

/-- A quotation ends after this many characters. -/
def maxQuotedLength : Nat := 100

/-- Take a line that is no event. It is quoted if it is long enough and there is room. -/
def recordFailure (s : Session) (lineNumber : Nat) (line : Text) : Session :=
  let trimmed := Text.trim line
  { s with
    failedLines := s.failedLines + 1
    problemLines :=
      if minQuotedLength < trimmed.length && s.problemLines.length < s.maxProblemLines then
        s.problemLines ++ [⟨lineNumber, trimmed.take maxQuotedLength⟩]
      else s.problemLines }

/-- Take a line of the trace; blank lines leave no mark. -/
def feedLine (s : Session) (lineNumber : Nat) (line : Text) : LineOutcome × Session :=
  if Text.isAllBlank line then (.blank, s)
  else
    match Event.ofLine? line with
    | some event => (.parsed, s.feedEvent event)
    | none => (.failed, s.recordFailure lineNumber line)

/-! ## The report -/

/-- The report on everything that was taken. -/
def report (s : Session) : Report :=
  let duration := Metrics.elapsed s.startTime s.latestTime
  { parsedLines := s.parsedLines
    failedLines := s.failedLines
    successRate := Metrics.successRate s.parsedLines s.failedLines
    eventTypes := s.eventTypes.entries
    totalPackets := s.totalPackets
    retransmittedPackets := s.retransmittedPackets
    retransmissionRate := Metrics.retransmissionRate s.retransmittedPackets s.totalPackets
    totalBytes := s.totalBytes
    startTime := s.startTime
    endTime := s.startTime.map fun _ => s.latestTime
    duration
    throughputBps := Metrics.throughput s.totalBytes duration
    packetTypes := s.packetTypes.entries
    uniqueFlows := s.flows.size
    avgPacketsPerFlow := Metrics.averagePerFlow s.totalPackets s.flows.size
    syntheticSeqs := s.syntheticSeqs
    problemLines := s.problemLines }

end Session

end PacketTrace

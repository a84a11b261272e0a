import PacketTrace.Event.Basic
import PacketTrace.Tally

/-!
# `Report.Basic` — the report on a trace

A report counts the events and the packets of a trace, measures its data and acknowledgement packets,
and quotes some of the lines that could not be read.

## Contents
- **Buckets.** `Bucket` is what packets are counted under: their kind, and a bucket of its own for
  retransmissions.
- **The report.** `ProblemLine` and `Report`, with the counts of a kind and of a bucket.
- **The header.** `ReportHeader` says what was analysed and when.
-/

namespace PacketTrace

/-! ## Buckets -/

/-- What a packet is counted under. -/
inductive Bucket where
  /-- Its kind. -/
  | packet (kind : PacketKind)
  /-- Retransmissions are counted once more, whatever their kind. -/
  | retransmissions
  deriving DecidableEq, Repr

namespace Bucket

/-- The name of a bucket. -/
def name : Bucket → Text
  | packet kind => kind.name
  | retransmissions => "Retransmissions".toList

/-- All buckets: the kinds in the order of their declaration, then retransmissions. -/
def all : List Bucket := PacketKind.all.map packet ++ [retransmissions]

/-- The bucket with the given name. -/
def ofName? (t : Text) : Option Bucket := all.find? (·.name = t)

@[simp] theorem ofName?_name (b : Bucket) : ofName? b.name = some b := by
  cases b with
  | packet kind => cases kind <;> rfl
  | retransmissions => rfl

end Bucket

/-! ## The report -/

/-- A line that could not be read. -/
structure ProblemLine where
  /-- Its number in the trace; the first line has number one. -/
  lineNumber : Nat
  /-- The beginning of the line, without blanks around it. -/
  text : Text
  deriving DecidableEq, Repr

/-- The figures of one trace. -/
structure Report where
  parsedLines : Nat
  failedLines : Nat
  /-- The parsed share of all lines that are not blank, in percent. -/
  successRate : Float
  /-- Events by kind, in the order of first appearance. -/
  eventTypes : List (EventKind × Nat)
  /-- Data and acknowledgement packets. -/
  totalPackets : Nat
  retransmittedPackets : Nat
  /-- The retransmitted share of these packets, in percent. -/
  retransmissionRate : Float
  /-- Their bytes; the sum stops at the largest word. -/
  totalBytes : Nat
  /-- The time of the first event. -/
  startTime : Option Float
  /-- The latest time of an event. -/
  endTime : Option Float
  /-- Seconds from the first event to the latest time. -/
  duration : Float
  /-- Bits per second over that time. -/
  throughputBps : Float
  /-- Packets by bucket, in the order of first appearance. -/
  packetTypes : List (Bucket × Nat)
  uniqueFlows : Nat
  avgPacketsPerFlow : Float
  /-- Events whose sequence number comes from the checksum of their line. -/
  syntheticSeqs : Nat
  /-- The first lines that could not be read, in order. -/
  problemLines : List ProblemLine

namespace Report

/-- The lines that are not blank. -/
def totalLines (r : Report) : Nat := r.parsedLines + r.failedLines

/-- The number of events of a kind. -/
def eventCount (r : Report) (kind : EventKind) : Nat := countOf r.eventTypes kind

/-- The number of packets in a bucket. -/
def packetCount (r : Report) (bucket : Bucket) : Nat := countOf r.packetTypes bucket

end Report

/-! ## The header -/

/-- What was analysed and when. -/
structure ReportHeader where
  inputFile : Text
  generatedAt : Text
  deriving DecidableEq, Repr

end PacketTrace

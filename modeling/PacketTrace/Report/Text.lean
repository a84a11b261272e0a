import PacketTrace.Decimal.Fixed
import PacketTrace.Report.Metrics

/-!
# `Report.Text` — a report for people

The text of a report has a header and titled sections. Every line of a section says what it counts;
the last section, with the quoted lines, is left out when there are none.

## Contents
- `Report.summary`: one line about a report.
- `Report.render`: the whole text, section by section.
-/

namespace PacketTrace

open Numeral

namespace Report

/-- A report in one line. -/
def summary (r : Report) : Text :=
  "Parsed: ".toList ++ decimal r.parsedLines ++
  " | Failed: ".toList ++ decimal r.failedLines ++
  " | Success: ".toList ++ Fixed.render 1 r.successRate ++
  "% | Packets: ".toList ++ decimal r.totalPackets ++
  " | Retransmissions: ".toList ++ decimal r.retransmittedPackets ++
  " (".toList ++ Fixed.render 2 r.retransmissionRate ++ "%)".toList

/-- A line of text with its terminator. -/
def textLine (t : Text) : Text := t ++ ['\n']

/-- A line that names a figure. -/
def figureLine (label : String) (figure : Text) : Text := textLine (label.toList ++ ": ".toList ++ figure)

/-- The title of a section, with an empty line before it. -/
def sectionTitle (title : String) : Text :=
  '\n' :: textLine ("--- ".toList ++ title.toList ++ " ---".toList)

/-- What was analysed and when. -/
def headerText (header : ReportHeader) : Text :=
  figureLine "Trace analysis" header.inputFile ++ figureLine "Analysis date" header.generatedAt

/-- How many lines were read. -/
def processingText (r : Report) : Text :=
  sectionTitle "PROCESSING STATISTICS" ++
  figureLine "Parsed lines" (decimal r.parsedLines) ++
  figureLine "Failed lines" (decimal r.failedLines) ++
  figureLine "Success rate" (Fixed.render 1 r.successRate ++ ['%'])

/-- The events of one kind. -/
def eventLine (entry : EventKind × Nat) : Text :=
  textLine (entry.1.name ++ ": ".toList ++ decimal entry.2 ++ " events".toList)

/-- The events by kind. -/
def eventsText (r : Report) : Text :=
  sectionTitle "EVENT DISTRIBUTION" ++ r.eventTypes.flatMap eventLine

/-- The figures of the data and acknowledgement packets. -/
def metricsText (r : Report) : Text :=
  sectionTitle "CORE METRICS" ++
  figureLine "Total data packets" (decimal r.totalPackets) ++
  figureLine "Retransmissions" (decimal r.retransmittedPackets) ++
  figureLine "Retransmission rate" (Fixed.render 2 r.retransmissionRate ++ ['%']) ++
  figureLine "Total data"
    (decimal r.totalBytes ++ " bytes (".toList ++ Fixed.render 2 r.totalKb ++ " KB)".toList) ++
  figureLine "Duration" (Fixed.render 3 r.duration ++ " s".toList) ++
  figureLine "Average throughput"
    (Fixed.render 2 r.throughputBps ++ " bit/s (".toList ++ Fixed.render 2 r.throughputMbps ++
      " Mbit/s)".toList)

/-- The packets in one bucket. -/
def packetLine (entry : Bucket × Nat) : Text :=
  textLine (entry.1.name ++ ": ".toList ++ decimal entry.2 ++ " packets".toList)

/-- The packets by bucket. -/
def packetsText (r : Report) : Text :=
  sectionTitle "PACKET TYPE DISTRIBUTION" ++ r.packetTypes.flatMap packetLine

/-- The flows. -/
def flowsText (r : Report) : Text :=
  sectionTitle "FLOW INFORMATION" ++
  figureLine "Unique flows" (decimal r.uniqueFlows) ++
  figureLine "Average packets per flow" (Fixed.render 1 r.avgPacketsPerFlow)

/-- A quoted line; three dots always follow it. -/
def problemLine (p : ProblemLine) : Text :=
  textLine ("Line ".toList ++ decimal p.lineNumber ++ ": ".toList ++ p.text ++ "...".toList)

/-- The quoted lines, if there are any. -/
def problemsText (r : Report) : Text :=
  if r.problemLines.isEmpty then []
  else sectionTitle "PROBLEM LINES" ++ r.problemLines.flatMap problemLine

/-- The whole text of a report. -/
def render (r : Report) (header : ReportHeader) : Text :=
  headerText header ++ r.processingText ++ r.eventsText ++ r.metricsText ++ r.packetsText ++
    r.flowsText ++ r.problemsText

end Report

end PacketTrace

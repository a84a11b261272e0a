import PacketTrace.Report.Session
import PacketTrace.Text.Utf8

/-!
# `Report.Aggregate` — the report on a whole trace

A trace is given as a list of lines or as the bytes of a file. The bytes are cut after every line feed
and each line is decoded on its own, its terminator included: all that reads a line ignores the blank
characters at its end.

## Contents
- `Session.feedLines` takes lines in order, numbering them.
- `aggregate` reports on a list of lines and `aggregateBytes` on a file.
-/

namespace PacketTrace

/-- Take lines in order; the first of them has number `first`. -/
def Session.feedLines (s : Session) (first : Nat) : List Text → Session
  | [] => s
  | line :: rest => Session.feedLines (s.feedLine first line).2 (first + 1) rest

/-- The report on a list of lines, with the usual number of samples. -/
def aggregate (lines : List Text) : Report := (Session.feedLines {} 1 lines).report

/-- The byte that ends a line. -/
def lineFeed : UInt8 := 0x0A

/-- The lines of a file, each with its terminator; only the last one may lack it. -/
def rawLines (bytes : Bytes) : List Bytes :=
  bytes.foldr
    (fun b lines =>
      if b = lineFeed then [b] :: lines
      else match lines with
        | [] => [[b]]
        | line :: others => (b :: line) :: others)
    []

/-- The report on the bytes of a file, with at most `samples` quoted lines. -/
def aggregateBytes (bytes : Bytes) (samples : Nat := 10) : Report :=
  (Session.feedLines { maxProblemLines := samples } 1
    ((rawLines bytes).map Utf8.decodeLossy)).report

end PacketTrace

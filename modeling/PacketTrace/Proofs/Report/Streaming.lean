import PacketTrace.Proofs.Event.BlankEnd
import PacketTrace.Proofs.Text.Lines
import PacketTrace.Report.Aggregate

/-!
# `Proofs.Report.Streaming` — a file read line by line

`aggregateBytes` cuts the bytes of a file and decodes every raw line on its own, terminator included;
`aggregate` is given lines. All that a session does with a line ignores a blank end
(`Session.feedLine_of_extendsByBlank`), so the two agree on every file.

## Contents
- **One line.** What a session makes of it with a blank end.
- **All lines.** `Session.feedLines_of_extendsByBlank` and the two reports.
-/

namespace PacketTrace

open Text

namespace Session

/-! ## One line -/

/-- A failed line is quoted without the blanks at its end. -/
theorem recordFailure_of_extendsByBlank (s : Session) (number : Nat) {long short : Text}
    (h : ExtendsByBlank long short) : s.recordFailure number long = s.recordFailure number short := by
  unfold recordFailure
  rw [ignoresBlankEnd_trim.eq_of_extendsByBlank h]

/-- **A session makes the same of a line whatever its blank end.** -/
theorem feedLine_of_extendsByBlank (s : Session) (number : Nat) {long short : Text}
    (h : ExtendsByBlank long short) : s.feedLine number long = s.feedLine number short := by
  unfold feedLine
  rw [ignoresBlankEnd_isAllBlank.eq_of_extendsByBlank h,
    Event.ignoresBlankEnd_event.eq_of_extendsByBlank h, s.recordFailure_of_extendsByBlank number h]

/-! ## All lines -/

theorem feedLines_of_extendsByBlank {longs shorts : List Text}
    (h : List.Forall₂ ExtendsByBlank longs shorts) (s : Session) (first : Nat) :
    s.feedLines first longs = s.feedLines first shorts := by
  induction h generalizing s first with
  | nil => rfl
  | cons hline _ ih => rw [feedLines, feedLines, s.feedLine_of_extendsByBlank first hline, ih]

end Session

/-- **A file and its lines.** The report on the bytes of a file is the report on the lines of its text,
    with every field the same, however the bytes are formed. -/
theorem aggregateBytes_eq_aggregate_lines (bytes : Bytes) :
    aggregateBytes bytes = aggregate (Text.lines (Utf8.decodeLossy bytes)) := by
  unfold aggregateBytes aggregate
  rw [Session.feedLines_of_extendsByBlank (forall₂_lines_rawLines bytes)]

end PacketTrace

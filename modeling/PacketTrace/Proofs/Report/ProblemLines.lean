import PacketTrace.Proofs.Report.History
import PacketTrace.Proofs.Report.Streaming

/-!
# `Proofs.Report.ProblemLines` — the lines that a report quotes

A report quotes the first lines of a file that could not be read, as many as its limit allows. `quotesFrom` lists
all lines that may be quoted, each with its number in the file; the quoted lines are the beginning of that list
(`problemLines_aggregateBytes`). Blank lines and events are numbered along with the others.

The limit decides about nothing else. A session that is made to quote nothing, `Session.unquoted`, takes the same
steps (`unquoted_feedLine`), so all sessions on a file agree once their quotes are left out.

## Contents
- **Lines to quote.** `isQuotable` and `quotesFrom`, and that these are the quotes of the failed lines.
- **What they look like.** Their numbers rise, and their texts lie within one line.
- **Without quotes.** `Session.unquoted` with its step and run lemmas.
- **Reports.** `problemLines_aggregateBytes`.
-/

namespace PacketTrace

open Text

/-! ## Lines to quote -/

/-- Whether a line may be quoted: it is neither blank nor an event, and longer than ten characters without the
    blanks around it. -/
def isQuotable (line : Text) : Bool :=
  !isAllBlank line && (Event.ofLine? line).isNone && decide (10 < (trim line).length)

/-- The beginnings of all lines that may be quoted, with their numbers; the first line has number `first`. -/
def quotesFrom (first : Nat) (lines : List Text) : List ProblemLine :=
  ((lines.zipIdx first).filter fun entry => isQuotable entry.1).map
    fun entry => ⟨entry.2, (trim entry.1).take 100⟩

/-- A line that may be quoted is a failed line that is quoted. -/
theorem failure?_bind_quote? (number : Nat) (line : Text) :
    (Feed.failure? (.line number line)).bind FailedLine.quote? =
      if isQuotable line = true then some ⟨number, (trim line).take 100⟩ else none := by
  unfold Feed.failure? isQuotable
  dsimp only
  cases isAllBlank line with
  | true => rfl
  | false =>
    cases Event.ofLine? line with
    | some e => rfl
    | none =>
      simp only [Bool.not_false, Option.isNone_none, Bool.true_and, decide_eq_true_iff]
      rfl

theorem quotes_failuresOf (first : Nat) (lines : List Text) :
    (failuresOf (Session.numbered first lines)).filterMap FailedLine.quote? = quotesFrom first lines := by
  unfold failuresOf
  rw [List.filterMap_filterMap]
  induction lines generalizing first with
  | nil => rfl
  | cons line lines ih =>
    have hfirst := failure?_bind_quote? first line
    have hrest := ih (first + 1)
    unfold quotesFrom at hrest ⊢
    rw [Session.numbered, List.filterMap_cons, hfirst, hrest, List.zipIdx_cons, List.filter_cons]
    by_cases hquote : isQuotable line = true
    · rw [if_pos hquote, if_pos hquote, List.map_cons]
    · rw [if_neg hquote, if_neg hquote]

/-! ## What they look like -/

/-- The numbers rise, as those of all lines do. -/
theorem pairwise_quotesFrom (first : Nat) (lines : List Text) :
    ((quotesFrom first lines).map (·.lineNumber)).Pairwise (· < ·) := by
  unfold quotesFrom
  rw [List.map_map]
  show (((lines.zipIdx first).filter _).map Prod.snd).Pairwise _
  have hall : ((lines.zipIdx first).map Prod.snd).Pairwise (· < ·) := by
    rw [List.zipIdx_map_snd]
    exact List.pairwise_lt_range'
  exact hall.sublist (List.filter_sublist.map Prod.snd)

/-- A quote is part of a line. -/
theorem exists_line_of_mem_quotesFrom {first : Nat} {lines : List Text} {quote : ProblemLine}
    (h : quote ∈ quotesFrom first lines) : ∃ line ∈ lines, ∀ c ∈ quote.text, c ∈ line := by
  obtain ⟨entry, hentry, rfl⟩ := List.mem_map.mp h
  have hline : entry.1 ∈ (lines.zipIdx first).map Prod.fst :=
    List.mem_map_of_mem (List.mem_of_mem_filter hentry)
  rw [List.zipIdx_map_fst] at hline
  exact ⟨entry.1, hline, fun c hc => mem_of_mem_trim (List.mem_of_mem_take hc)⟩

/-! ## Without quotes -/

namespace Session

/-- The session without its quotes and without room for any. -/
def unquoted (s : Session) : Session := { s with maxProblemLines := 0, problemLines := [] }

theorem unquoted_feedEvent (s : Session) (e : Event) : (s.feedEvent e).unquoted = s.unquoted.feedEvent e := by
  rw [feedEvent_eq, feedEvent_eq]
  rfl

theorem unquoted_recordFailure (s : Session) (number : Nat) (line : Text) :
    (s.recordFailure number line).unquoted = s.unquoted.recordFailure number line := by
  unfold recordFailure unquoted
  simp

/-- **One line.** Quotes play no part in what a session does. -/
theorem unquoted_feedLine (s : Session) (number : Nat) (line : Text) :
    (s.feedLine number line).2.unquoted = (s.unquoted.feedLine number line).2 := by
  unfold feedLine
  split
  · rfl
  · cases Event.ofLine? line with
    | some e => exact s.unquoted_feedEvent e
    | none => exact s.unquoted_recordFailure number line

/-- **All lines.** -/
theorem unquoted_feedLines (s : Session) (first : Nat) (lines : List Text) :
    (s.feedLines first lines).unquoted = s.unquoted.feedLines first lines := by
  induction lines generalizing s first with
  | nil => rfl
  | cons line lines ih => rw [feedLines, feedLines, ih, unquoted_feedLine]

theorem report_unquoted (s : Session) : s.unquoted.report = { s.report with problemLines := [] } := rfl

end Session

/-! ## Reports -/

/-- A file is reported on by its lines. -/
theorem aggregateBytes_eq_report (bytes : Bytes) (limit : Nat) :
    aggregateBytes bytes limit =
      (Session.feedLines { maxProblemLines := limit } 1 (lines (Utf8.decodeLossy bytes))).report := by
  unfold aggregateBytes
  rw [Session.feedLines_of_extendsByBlank (forall₂_lines_rawLines bytes)]

/-- Two limits give the same report, up to the quotes. -/
theorem aggregateBytes_unquoted (bytes : Bytes) (limit other : Nat) :
    { aggregateBytes bytes limit with problemLines := [] } =
      { aggregateBytes bytes other with problemLines := [] } := by
  rw [aggregateBytes_eq_report, aggregateBytes_eq_report, ← Session.report_unquoted, ← Session.report_unquoted,
    Session.unquoted_feedLines, Session.unquoted_feedLines]
  rfl

/-- **The quoted lines of a file.** They are the first of those that may be quoted, their numbers rise, none holds
    a line feed, and how many there may be makes no difference to the rest of the report. -/
theorem problemLines_aggregateBytes (bytes : Bytes) (limit : Nat) :
    let r := aggregateBytes bytes limit
    r.problemLines = (quotesFrom 1 (lines (Utf8.decodeLossy bytes))).take limit ∧
    (r.problemLines.map (·.lineNumber)).Pairwise (· < ·) ∧
    (∀ quote ∈ r.problemLines, '\n' ∉ quote.text) ∧
    ∀ other, { aggregateBytes bytes other with problemLines := r.problemLines } = r := by
  intro r
  have hquotes : r.problemLines = (quotesFrom 1 (lines (Utf8.decodeLossy bytes))).take limit := by
    have hrecords := (Session.records_feedLines limit 1 (lines (Utf8.decodeLossy bytes))).problemLines
    rw [quotes_failuresOf, Session.feedLines_eq_run, Session.maxProblemLines_run] at hrecords
    show (aggregateBytes bytes limit).problemLines = _
    rw [aggregateBytes_eq_report, Session.feedLines_eq_run]
    exact hrecords
  refine ⟨hquotes, ?_, fun quote hquote => ?_, fun other => ?_⟩
  · rw [hquotes]
    exact (pairwise_quotesFrom 1 _).sublist ((List.take_sublist limit _).map _)
  · rw [hquotes] at hquote
    obtain ⟨line, hline, hsub⟩ := exists_line_of_mem_quotesFrom (List.mem_of_mem_take hquote)
    exact fun hmem => not_mem_of_mem_lines hline (hsub _ hmem)
  · exact congrArg (fun unquoted : Report => { unquoted with problemLines := r.problemLines })
      (aggregateBytes_unquoted bytes other limit)

end PacketTrace

import Mathlib.Data.Finset.Card
import PacketTrace.Proofs.Float.Order
import PacketTrace.Proofs.Report.Balance

/-!
# `Proofs.Report.Split` — the report on two traces in a row

A trace may be cut in two and each part reported on by itself. What a report gives is a summary of the
list of events and of the list of failed lines (`Session.records_feedLines`), and both lists of the whole
are those of the parts, one after the other; so every figure of the whole is found from the same figure of
the parts. Two things have to be mended: a flow that occurs in both parts was new twice, and the lines of
the second part have other numbers.

## Contents
- **Events.** Tallies, repeats and buckets of two lists of events in a row.
- **Failed lines.** Lines with other numbers, and how they are quoted.
- **Times.** The first and the latest time of two parts.
- **Reports.** `Report.Joins` and `joins_aggregate_append`.
-/

namespace PacketTrace

/-! ## Events -/

/-- Keys that are counted later come after those that were counted before. -/
theorem Tally.keys_ofKeys_prefix {κ : Type} [DecidableEq κ] (xs ys : List κ) :
    (ofKeys xs).entries.map (·.1) <+: (ofKeys (xs ++ ys)).entries.map (·.1) := by
  rw [map_fst_ofKeys, map_fst_ofKeys, List.eraseDups_append]
  exact List.prefix_append _ _

/-- The flows that occur in both lists were counted as new twice. -/
theorem card_toFinset_append {κ : Type} [DecidableEq κ] (xs ys : List κ) :
    (xs ++ ys).toFinset.card + (xs.toFinset ∩ ys.toFinset).card = xs.toFinset.card + ys.toFinset.card := by
  rw [List.toFinset_append]
  exact Finset.card_union_add_card_inter xs.toFinset ys.toFinset

/-- Each of them returns once more than in the two lists alone. -/
theorem repeatCount_append {κ : Type} [DecidableEq κ] (xs ys : List κ) :
    repeatCount (xs ++ ys) =
      repeatCount xs + repeatCount ys + (xs.toFinset ∩ ys.toFinset).card := by
  have hwhole := repeatCount_add_card (xs ++ ys)
  have hxs := repeatCount_add_card xs
  have hys := repeatCount_add_card ys
  have hcard := card_toFinset_append xs ys
  rw [List.length_append] at hwhole
  omega

theorem flowEvents_append (xs ys : List Event) :
    flowEvents (xs ++ ys) = flowEvents xs ++ flowEvents ys :=
  List.filter_append xs ys

theorem flowKeys_append (xs ys : List Event) : flowKeys (xs ++ ys) = flowKeys xs ++ flowKeys ys := by
  unfold flowKeys
  rw [flowEvents_append, List.map_append]

theorem buckets_append (xs ys : List Event) : buckets (xs ++ ys) = buckets xs ++ bucketsFrom xs ys := by
  unfold buckets
  rw [bucketsFrom_append, List.nil_append]

/-! ## Failed lines -/

/-- A failed line in a trace with so many more lines before it. -/
def FailedLine.movedBy (offset : Nat) (f : FailedLine) : FailedLine :=
  { f with number := f.number + offset }

/-- A quoted line in a trace with so many more lines before it. -/
def ProblemLine.movedBy (offset : Nat) (p : ProblemLine) : ProblemLine :=
  { p with lineNumber := p.lineNumber + offset }

theorem FailedLine.quote?_movedBy (offset : Nat) (f : FailedLine) :
    (f.movedBy offset).quote? = f.quote?.map (ProblemLine.movedBy offset) := by
  unfold quote? movedBy
  split
  · rfl
  · rfl

namespace Session

theorem numbered_append (first : Nat) (xs ys : List Text) :
    numbered first (xs ++ ys) = numbered first xs ++ numbered (first + xs.length) ys := by
  induction xs generalizing first with
  | nil => rfl
  | cons line xs ih =>
    have hnext : first + (line :: xs).length = first + 1 + xs.length := by
      rw [List.length_cons]
      omega
    rw [List.cons_append, numbered, numbered, ih, hnext, List.cons_append]

/-- Only the numbers of the failed lines depend on where the numbers begin. -/
theorem failuresOf_numbered (first offset : Nat) (lines : List Text) :
    failuresOf (numbered (first + offset) lines) =
      (failuresOf (numbered first lines)).map (FailedLine.movedBy offset) := by
  induction lines generalizing first with
  | nil => rfl
  | cons line lines ih =>
    have hline : Feed.failure? (.line (first + offset) line) =
        (Feed.failure? (.line first line)).map (FailedLine.movedBy offset) := by
      unfold Feed.failure?
      dsimp only
      split
      · rfl
      · rfl
    have hrest := ih (first + 1)
    rw [Nat.add_right_comm] at hrest
    unfold failuresOf at hrest ⊢
    rw [numbered, numbered, ← List.singleton_append, ← List.singleton_append (l := numbered (first + 1) lines),
      List.filterMap_append, List.filterMap_append, filterMap_singleton, filterMap_singleton, hline,
      hrest, List.map_append]
    cases Feed.failure? (.line first line) with
    | none => rfl
    | some f => rfl

/-- In a trace that is cut in two, the lines of the second part go on counting. -/
theorem failuresOf_numbered_append (xs ys : List Text) :
    failuresOf (numbered 1 (xs ++ ys)) =
      failuresOf (numbered 1 xs) ++ (failuresOf (numbered 1 ys)).map (FailedLine.movedBy xs.length) := by
  rw [numbered_append, ← failuresOf_numbered]
  exact List.filterMap_append

theorem maxProblemLines_feedLines (s : Session) (first : Nat) (lines : List Text) :
    (s.feedLines first lines).maxProblemLines = s.maxProblemLines := by
  rw [feedLines_eq_run]
  exact maxProblemLines_run s _

end Session

theorem take_append_take {α : Type} (n : Nat) (xs ys : List α) :
    (xs.take n ++ ys.take n).take n = (xs ++ ys).take n := by
  rw [List.take_append, List.take_append, List.take_take, List.length_take, List.take_take, Nat.min_self]
  congr 2
  omega

/-! ## Times -/

/-- The time of an event is a number, not below zero. -/
theorem Event.unsigned_time {line : Text} {e : Event} (h : Event.ofLine? line = some e) :
    Unsigned e.time := by
  obtain ⟨anchors, hanchors, heq⟩ := Option.bind_eq_some_iff.mp h
  cases heq
  cases line with
  | nil => cases hanchors
  | cons symbol rest =>
    -- the time is put together from two runs of digits; the other fields do not matter
    simp only [Anchors.ofLine?, Option.bind_eq_bind, Option.bind_eq_some_iff] at hanchors
    obtain ⟨_, _, _, _, ⟨whole, _⟩, _, _, _, ⟨fraction, _⟩, _, _, _, _, _, _, _, _, _, _, _,
      heq⟩ := hanchors
    cases heq
    exact unsigned_seconds whole fraction

theorem unsigned_times (lines : List Text) :
    ∀ t ∈ (lines.filterMap Event.ofLine?).map (·.time), Unsigned t := by
  intro t ht
  obtain ⟨e, he, rfl⟩ := List.mem_map.mp ht
  obtain ⟨line, -, hline⟩ := List.mem_filterMap.mp he
  exact Event.unsigned_time hline

/-- The latest time of all, if there is any. -/
def latest? (times : List Float) : Option Float :=
  times.head?.map fun _ => times.foldl laterTime 0.0

/-- The latest time of two lists is the later of their latest times. -/
theorem latest?_append {xs ys : List Float} (hxs : ∀ t ∈ xs, Unsigned t) (hys : ∀ t ∈ ys, Unsigned t) :
    latest? (xs ++ ys) = Option.merge laterTime (latest? xs) (latest? ys) := by
  unfold latest?
  cases xs with
  | nil =>
    cases ys with
    | nil => rfl
    | cons y ys => rfl
  | cons x xs =>
    cases ys with
    | nil => rw [List.append_nil]; rfl
    | cons y ys =>
      have hfirst : Unsigned ((x :: xs).foldl laterTime 0.0) := unsigned_zero.foldl_laterTime hxs
      rw [List.foldl_append, foldl_laterTime hfirst hys]
      rfl

/-! ## Reports -/

namespace Report

/-- **The figures that follow from others.** Shares, means, the duration and the throughput. -/
structure Derived (r : Report) : Prop where
  successRate : r.successRate = Metrics.successRate r.parsedLines r.failedLines
  retransmissionRate :
    r.retransmissionRate = Metrics.retransmissionRate r.retransmittedPackets r.totalPackets
  duration : r.duration = Metrics.elapsed r.startTime (r.endTime.getD 0.0)
  throughputBps : r.throughputBps = Metrics.throughput r.totalBytes r.duration
  avgPacketsPerFlow : r.avgPacketsPerFlow = Metrics.averagePerFlow r.totalPackets r.uniqueFlows

/-- **A report on two traces in a row.** `r` is the report on a trace of `offset` lines that `a` reports
    on, followed by the lines that `b` reports on, if `shared` flows occur in both. -/
structure Joins (shared offset : Nat) (a b r : Report) : Prop where
  parsedLines : r.parsedLines = a.parsedLines + b.parsedLines
  failedLines : r.failedLines = a.failedLines + b.failedLines
  totalPackets : r.totalPackets = a.totalPackets + b.totalPackets
  syntheticSeqs : r.syntheticSeqs = a.syntheticSeqs + b.syntheticSeqs
  eventCount (kind : EventKind) : r.eventCount kind = a.eventCount kind + b.eventCount kind
  packetCount (kind : PacketKind) :
    r.packetCount (.packet kind) = a.packetCount (.packet kind) + b.packetCount (.packet kind)
  /-- The sum stops at the largest word. -/
  totalBytes : r.totalBytes = min (a.totalBytes + b.totalBytes) maxWord
  /-- A shared flow is one flow of the whole. -/
  uniqueFlows : r.uniqueFlows + shared = a.uniqueFlows + b.uniqueFlows
  /-- Its first packet in the second part is no longer the first of its flow. -/
  retransmittedPackets : r.retransmittedPackets = a.retransmittedPackets + b.retransmittedPackets + shared
  retransmissions :
    r.packetCount .retransmissions = a.packetCount .retransmissions + b.packetCount .retransmissions + shared
  startTime : r.startTime = a.startTime.or b.startTime
  endTime : r.endTime = Option.merge laterTime a.endTime b.endTime
  problemLines :
    r.problemLines = (a.problemLines ++ b.problemLines.map (ProblemLine.movedBy offset)).take 10
  /-- What the first part lists keeps its place. -/
  eventKeys : a.eventTypes.map (·.1) <+: r.eventTypes.map (·.1)
  packetKeys : a.packetTypes.map (·.1) <+: r.packetTypes.map (·.1)
  derived : r.Derived

end Report

theorem Session.Records.endTime {s : Session} {events : List Event} {failures : List FailedLine}
    (h : s.Records events failures) : s.report.endTime = latest? (events.map (·.time)) := by
  show s.startTime.map (fun _ => s.latestTime) = _
  rw [h.startTime, h.latestTime]
  rfl

theorem Session.Records.derived {s : Session} {events : List Event} {failures : List FailedLine}
    (h : s.Records events failures) : s.report.Derived where
  successRate := rfl
  retransmissionRate := rfl
  duration := by
    show Metrics.elapsed s.startTime s.latestTime = Metrics.elapsed s.startTime _
    rw [h.endTime, h.startTime, h.latestTime]
    cases events with
    | nil => rfl
    | cons e events => rfl
  throughputBps := rfl
  avgPacketsPerFlow := rfl

/-- **Histories in a row.** A session that records what two others record one after the other reports what
    they report together. -/
theorem Session.Records.joins {s t u : Session} {xs ys : List Event} {fs gs : List FailedLine}
    {offset : Nat} (hs : s.Records xs fs) (ht : t.Records ys gs)
    (hu : u.Records (xs ++ ys) (fs ++ gs.map (FailedLine.movedBy offset)))
    (hxs : ∀ time ∈ xs.map (·.time), Unsigned time) (hys : ∀ time ∈ ys.map (·.time), Unsigned time)
    (hlimits : s.maxProblemLines = 10 ∧ t.maxProblemLines = 10 ∧ u.maxProblemLines = 10) :
    Report.Joins ((flowKeys xs).toFinset ∩ (flowKeys ys).toFinset).card offset s.report t.report
      u.report where
  parsedLines := by
    show u.parsedLines = s.parsedLines + t.parsedLines
    rw [hu.parsedLines, hs.parsedLines, ht.parsedLines, List.length_append]
  failedLines := by
    show u.failedLines = s.failedLines + t.failedLines
    rw [hu.failedLines, hs.failedLines, ht.failedLines, List.length_append, List.length_map]
  totalPackets := by
    show u.totalPackets = s.totalPackets + t.totalPackets
    rw [hu.totalPackets, hs.totalPackets, ht.totalPackets, flowEvents_append, List.length_append]
  syntheticSeqs := by
    show u.syntheticSeqs = s.syntheticSeqs + t.syntheticSeqs
    rw [hu.syntheticSeqs, hs.syntheticSeqs, ht.syntheticSeqs, List.countP_append]
  eventCount := by
    intro kind
    show countOf u.eventTypes.entries kind =
      countOf s.eventTypes.entries kind + countOf t.eventTypes.entries kind
    rw [hu.eventTypes, hs.eventTypes, ht.eventTypes, Tally.countOf_ofKeys, Tally.countOf_ofKeys,
      Tally.countOf_ofKeys, List.map_append, List.count_append]
  packetCount := by
    intro kind
    show countOf u.packetTypes.entries (.packet kind) =
      countOf s.packetTypes.entries (.packet kind) + countOf t.packetTypes.entries (.packet kind)
    rw [hu.packetTypes, hs.packetTypes, ht.packetTypes, Tally.countOf_ofKeys, Tally.countOf_ofKeys,
      Tally.countOf_ofKeys, count_buckets_packet, count_buckets_packet, count_buckets_packet,
      List.countP_append]
  totalBytes := by
    show u.totalBytes = min (s.totalBytes + t.totalBytes) maxWord
    rw [hu.totalBytes, hs.totalBytes, ht.totalBytes, flowEvents_append, List.map_append,
      List.sum_append]
    omega
  uniqueFlows := by
    have hcard := card_toFinset_append (flowKeys xs) (flowKeys ys)
    show u.flows.size + _ = s.flows.size + t.flows.size
    rw [hu.flows.size, hs.flows.size, ht.flows.size, flowKeys_append]
    exact hcard
  retransmittedPackets := by
    show u.retransmittedPackets = s.retransmittedPackets + t.retransmittedPackets + _
    rw [hu.retransmittedPackets, hs.retransmittedPackets, ht.retransmittedPackets, flowKeys_append,
      repeatCount_append]
  retransmissions := by
    show countOf u.packetTypes.entries .retransmissions =
      countOf s.packetTypes.entries .retransmissions + countOf t.packetTypes.entries .retransmissions + _
    rw [hu.packetTypes, hs.packetTypes, ht.packetTypes, Tally.countOf_ofKeys, Tally.countOf_ofKeys,
      Tally.countOf_ofKeys, count_buckets_retransmissions, count_buckets_retransmissions,
      count_buckets_retransmissions, flowKeys_append, repeatCount_append]
  startTime := by
    show u.startTime = s.startTime.or t.startTime
    rw [hu.startTime, hs.startTime, ht.startTime, List.map_append, List.head?_append]
  endTime := by
    rw [hu.endTime, hs.endTime, ht.endTime, List.map_append]
    exact latest?_append hxs hys
  problemLines := by
    have hquote : FailedLine.quote? ∘ FailedLine.movedBy offset =
        fun f => f.quote?.map (ProblemLine.movedBy offset) :=
      funext fun f => FailedLine.quote?_movedBy offset f
    obtain ⟨hlimit, hlimit', hlimit''⟩ := hlimits
    show u.problemLines = (s.problemLines ++ t.problemLines.map (ProblemLine.movedBy offset)).take 10
    -- what the first part has no room for is not quoted in the whole either
    rw [hu.problemLines, hs.problemLines, ht.problemLines, hlimit, hlimit', hlimit'',
      List.filterMap_append, List.filterMap_map, hquote, ← List.map_filterMap, List.map_take,
      take_append_take]
  eventKeys := by
    show s.eventTypes.entries.map (·.1) <+: u.eventTypes.entries.map (·.1)
    rw [hu.eventTypes, hs.eventTypes, List.map_append]
    exact Tally.keys_ofKeys_prefix _ _
  packetKeys := by
    show s.packetTypes.entries.map (·.1) <+: u.packetTypes.entries.map (·.1)
    rw [hu.packetTypes, hs.packetTypes, buckets_append]
    exact Tally.keys_ofKeys_prefix _ _
  derived := hu.derived

/-- **The report on two traces in a row.** Every figure of the whole is found from those of the parts and
    from the number of flows that occur in both. -/
theorem joins_aggregate_append (a b : List Text) :
    let flowsOf (lines : List Text) := (flowKeys (lines.filterMap Event.ofLine?)).toFinset
    Report.Joins (flowsOf a ∩ flowsOf b).card a.length (aggregate a) (aggregate b)
      (aggregate (a ++ b)) := by
  intro flowsOf
  have hwhole := Session.records_feedLines 10 1 (a ++ b)
  rw [List.filterMap_append, Session.failuresOf_numbered_append] at hwhole
  exact (Session.records_feedLines 10 1 a).joins (Session.records_feedLines 10 1 b) hwhole
    (unsigned_times a) (unsigned_times b)
    ⟨Session.maxProblemLines_feedLines _ _ _, Session.maxProblemLines_feedLines _ _ _,
      Session.maxProblemLines_feedLines _ _ _⟩

end PacketTrace

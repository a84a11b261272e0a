import Mathlib.Algebra.BigOperators.Group.List.Basic
import PacketTrace.Proofs.Event.BlankEnd
import PacketTrace.Proofs.FlowTable
import PacketTrace.Proofs.Tally
import PacketTrace.Report.Aggregate

/-!
# `Proofs.Report.History` — the state of a session as a function of what it was given

A session keeps counters, tallies, times and the table of flows. Each of them is a summary of the events
and of the failed lines so far, taken in order: `Session.Records` lists which summary of which. One event
and one failed line extend the two lists at their ends (`Records.feedEvent`, `Records.recordFailure`), and
`records_run` is the induction over all that a session is given. What a report says about a whole trace is
then a fact about two lists.

## Contents
- **Summaries.** `flowEvents`, `flowKeys`, `bucketsOf` and `buckets` of a list of events; `quote?` for a
  failed line.
- **Inputs.** `Feed`, `Session.feed` and `Session.run`; `aggregate` is such a run.
- **The invariant.** `Session.Records` with its two step lemmas and the run lemma.
-/

namespace PacketTrace

/-! ## Summaries -/

/-- The flow that an event belongs to. -/
def Event.key (e : Event) : FlowKey := ⟨e.nodeId, e.seq⟩

/-- The data and acknowledgement packets among some events. -/
def flowEvents (events : List Event) : List Event :=
  events.filter fun e => e.packetKind = .data || e.packetKind = .ack

/-- Their flows, in order. -/
def flowKeys (events : List Event) : List FlowKey := (flowEvents events).map Event.key

/-- Whether an event repeats a flow of the events before it. -/
def isRepeat (before : List Event) (e : Event) : Bool :=
  e.packetKind.countsForFlows && decide (e.key ∈ flowKeys before)

/-- The buckets that an event counts in: its kind, and then retransmissions if its flow returns. -/
def bucketsOf (before : List Event) (e : Event) : List Bucket :=
  .packet e.packetKind :: if isRepeat before e then [.retransmissions] else []

/-- The buckets that events count in after those in `before`. -/
def bucketsFrom (before : List Event) : List Event → List Bucket
  | [] => []
  | e :: rest => bucketsOf before e ++ bucketsFrom (before ++ [e]) rest

/-- The buckets that events count in, one after the other. -/
def buckets (events : List Event) : List Bucket := bucketsFrom [] events

theorem countsForFlows_eq (kind : PacketKind) :
    kind.countsForFlows = (decide (kind = .data) || decide (kind = .ack)) := by
  cases kind <;> rfl

theorem flowEvents_append_singleton (events : List Event) (e : Event) :
    flowEvents (events ++ [e]) =
      flowEvents events ++ if e.packetKind.countsForFlows then [e] else [] := by
  unfold flowEvents
  rw [List.filter_append, List.filter_singleton, countsForFlows_eq, Bool.cond_eq_ite]

theorem flowKeys_append_singleton (events : List Event) (e : Event) :
    flowKeys (events ++ [e]) =
      flowKeys events ++ if e.packetKind.countsForFlows then [e.key] else [] := by
  unfold flowKeys
  rw [flowEvents_append_singleton, List.map_append]
  split <;> rfl

/-- One more packet that is measured is one more repeat if its flow returns. -/
theorem repeatCount_flowKeys_append_singleton (events : List Event) (e : Event) :
    repeatCount (flowKeys (events ++ [e])) =
      repeatCount (flowKeys events) + if isRepeat events e then 1 else 0 := by
  rw [flowKeys_append_singleton]
  unfold isRepeat
  by_cases hc : e.packetKind.countsForFlows = true
  · rw [if_pos hc, repeatCount_append_singleton, hc, Bool.true_and]
    simp only [decide_eq_true_iff]
  · rw [if_neg hc, List.append_nil, Bool.eq_false_iff.mpr hc, Bool.false_and]
    rfl

theorem bucketsFrom_append (before xs ys : List Event) :
    bucketsFrom before (xs ++ ys) = bucketsFrom before xs ++ bucketsFrom (before ++ xs) ys := by
  induction xs generalizing before with
  | nil => rw [List.append_nil]; rfl
  | cons e xs ih =>
    rw [List.cons_append, bucketsFrom, bucketsFrom, ih, List.append_assoc, List.append_assoc,
      List.singleton_append]

theorem buckets_append_singleton (events : List Event) (e : Event) :
    buckets (events ++ [e]) = buckets events ++ bucketsOf events e := by
  unfold buckets
  rw [bucketsFrom_append, List.nil_append, bucketsFrom, bucketsFrom, List.append_nil]

theorem filterMap_singleton {α β : Type} (f : α → Option β) (x : α) :
    [x].filterMap f = (f x).toList := by
  cases hx : f x with
  | none => rw [List.filterMap_cons_none hx]; rfl
  | some y => rw [List.filterMap_cons_some hx]; rfl

/-- A line that is neither blank nor an event, with its number. -/
structure FailedLine where
  number : Nat
  text : Text

/-- How a failed line is quoted, if it is long enough. -/
def FailedLine.quote? (f : FailedLine) : Option ProblemLine :=
  if Session.minQuotedLength < (Text.trim f.text).length then
    some ⟨f.number, (Text.trim f.text).take Session.maxQuotedLength⟩
  else none

/-! ## Inputs -/

/-- What a session can be given: a line with its number, or an event. -/
inductive Feed where
  | line (number : Nat) (text : Text)
  | event (e : Event)

namespace Feed

/-- The event that the session counts. -/
def event? : Feed → Option Event
  | line _ text => Event.ofLine? text
  | event e => some e

/-- The failed line that the session counts. -/
def failure? : Feed → Option FailedLine
  | line number text =>
    if Text.isAllBlank text || (Event.ofLine? text).isSome then none else some ⟨number, text⟩
  | event _ => none

/-- Whether the session counts it at all: every event, and every line that is not blank. -/
def isCounted : Feed → Bool
  | line _ text => !Text.isAllBlank text
  | event _ => true

end Feed

/-- The events among the inputs of a session. -/
def eventsOf (feeds : List Feed) : List Event := feeds.filterMap Feed.event?

/-- The failed lines among the inputs of a session. -/
def failuresOf (feeds : List Feed) : List FailedLine := feeds.filterMap Feed.failure?

namespace Session

/-- Take one input. -/
def feed (s : Session) : Feed → Session
  | .line number text => (s.feedLine number text).2
  | .event e => s.feedEvent e

/-- Take all inputs in order. -/
def run (s : Session) (feeds : List Feed) : Session := feeds.foldl feed s

/-- Numbered lines as inputs. -/
def numbered (first : Nat) : List Text → List Feed
  | [] => []
  | line :: rest => .line first line :: numbered (first + 1) rest

theorem feedLines_eq_run (s : Session) (first : Nat) (lines : List Text) :
    s.feedLines first lines = s.run (numbered first lines) := by
  induction lines generalizing s first with
  | nil => rfl
  | cons line rest ih => rw [feedLines, ih]; rfl

theorem eventsOf_numbered (first : Nat) (lines : List Text) :
    eventsOf (numbered first lines) = lines.filterMap Event.ofLine? := by
  induction lines generalizing first with
  | nil => rfl
  | cons line rest ih =>
    have h : Feed.event? (.line first line) = Event.ofLine? line := rfl
    unfold eventsOf at ih ⊢
    rw [numbered, List.filterMap_cons, List.filterMap_cons, h, ih]

/-! ## The invariant -/

/-- **What a session holds.** Every part of its state is a summary of the events and of the failed lines
    that it was given, in order. -/
structure Records (s : Session) (events : List Event) (failures : List FailedLine) : Prop where
  parsedLines : s.parsedLines = events.length
  failedLines : s.failedLines = failures.length
  problemLines : s.problemLines = (failures.filterMap FailedLine.quote?).take s.maxProblemLines
  eventTypes : s.eventTypes = Tally.ofKeys (events.map (·.kind))
  packetTypes : s.packetTypes = Tally.ofKeys (buckets events)
  startTime : s.startTime = (events.map (·.time)).head?
  latestTime : s.latestTime = (events.map (·.time)).foldl laterTime 0.0
  totalPackets : s.totalPackets = (flowEvents events).length
  retransmittedPackets : s.retransmittedPackets = repeatCount (flowKeys events)
  totalBytes : s.totalBytes = min ((flowEvents events).map (·.packetSize)).sum maxWord
  syntheticSeqs : s.syntheticSeqs = events.countP (·.seqSource = .synthetic)
  flows : s.flows.Tracks (flowKeys events)

theorem records_start (limit : Nat) : Records { maxProblemLines := limit } [] [] where
  parsedLines := rfl
  failedLines := rfl
  problemLines := List.take_nil.symm
  eventTypes := rfl
  packetTypes := rfl
  startTime := rfl
  latestTime := rfl
  totalPackets := rfl
  retransmittedPackets := rfl
  totalBytes := rfl
  syntheticSeqs := rfl
  flows := FlowTable.tracks_empty

/-- All that an event changes in a session, whatever its packet kind. -/
theorem feedEvent_eq (s : Session) (e : Event) :
    let repeated := e.packetKind.countsForFlows && (s.flows.observe e.key).1 = .retransmission
    s.feedEvent e =
      { s with
        parsedLines := s.parsedLines + 1
        eventTypes := s.eventTypes.increment e.kind
        startTime := some (s.startTime.getD e.time)
        latestTime := laterTime s.latestTime e.time
        packetTypes := (Bucket.packet e.packetKind :: if repeated then [.retransmissions] else []).foldl
          Tally.increment s.packetTypes
        syntheticSeqs := s.syntheticSeqs + if e.seqSource = .synthetic then 1 else 0
        totalPackets := s.totalPackets + if e.packetKind.countsForFlows then 1 else 0
        totalBytes :=
          if e.packetKind.countsForFlows then min (s.totalBytes + e.packetSize) maxWord else s.totalBytes
        retransmittedPackets := s.retransmittedPackets + if repeated then 1 else 0
        flows := if e.packetKind.countsForFlows then (s.flows.observe e.key).2 else s.flows } := by
  have hsynthetic : (if e.seqSource = .synthetic then s.syntheticSeqs + 1 else s.syntheticSeqs) =
      s.syntheticSeqs + if e.seqSource = .synthetic then 1 else 0 := by
    split <;> rfl
  dsimp only
  -- only a packet that counts for flows is looked up in the table
  by_cases hc : e.packetKind.countsForFlows = true
  · rcases ho : s.flows.observe e.key with ⟨observation, flows⟩
    have ho' : (s.countEvent e).flows.observe ⟨e.nodeId, e.seq⟩ = (observation, flows) := ho
    rw [feedEvent, if_pos hc]
    unfold countPacket
    dsimp only
    rw [ho', countEvent, hsynthetic]
    cases observation with
    | new => simp [hc]
    | retransmission => simp [hc]
  · rw [feedEvent, if_neg hc, countEvent, hsynthetic]
    simp [hc]

/-- **An event extends the history of events.** -/
theorem Records.feedEvent {s : Session} {events : List Event} {failures : List FailedLine}
    (h : Records s events failures) (e : Event) :
    Records (s.feedEvent e) (events ++ [e]) failures := by
  obtain ⟨hobserved, htracks⟩ := h.flows.observe e.key
  -- the table has seen the flow exactly if the history of keys has
  have hrepeat : (e.packetKind.countsForFlows &&
      decide ((s.flows.observe e.key).1 = .retransmission)) = isRepeat events e := by
    unfold isRepeat
    rw [hobserved]
    by_cases hk : e.key ∈ flowKeys events
    · simp [hk]
    · simp [hk]
  rw [feedEvent_eq, hrepeat]
  exact {
    parsedLines := by
      show s.parsedLines + 1 = _
      rw [h.parsedLines, List.length_append, List.length_singleton]
    failedLines := h.failedLines
    problemLines := h.problemLines
    eventTypes := by
      show s.eventTypes.increment e.kind = _
      rw [h.eventTypes, List.map_append, List.map_singleton, Tally.ofKeys_append_singleton]
    packetTypes := by
      show (bucketsOf events e).foldl Tally.increment s.packetTypes = _
      rw [h.packetTypes, buckets_append_singleton, Tally.ofKeys, Tally.ofKeys, List.foldl_append]
    startTime := by
      show some (s.startTime.getD e.time) = _
      rw [h.startTime, List.map_append, List.head?_append]
      cases events with
      | nil => rfl
      | cons first rest => rfl
    latestTime := by
      show laterTime s.latestTime e.time = _
      rw [h.latestTime, List.map_append, List.foldl_append]
      rfl
    totalPackets := by
      show s.totalPackets + _ = _
      rw [h.totalPackets, flowEvents_append_singleton, List.length_append]
      split <;> rfl
    retransmittedPackets := by
      show s.retransmittedPackets + _ = _
      rw [h.retransmittedPackets, repeatCount_flowKeys_append_singleton]
    totalBytes := by
      show (if _ then _ else _) = _
      rw [h.totalBytes, flowEvents_append_singleton, List.map_append, List.sum_append]
      by_cases hc : e.packetKind.countsForFlows = true
      · rw [if_pos hc, if_pos hc, List.map_singleton, List.sum_singleton]
        omega
      · rw [if_neg hc, if_neg hc]
        rfl
    syntheticSeqs := by
      show s.syntheticSeqs + _ = _
      rw [h.syntheticSeqs, List.countP_append, List.countP_singleton]
      simp only [decide_eq_true_iff]
    flows := by
      show FlowTable.Tracks (if _ then _ else _) _
      rw [flowKeys_append_singleton]
      by_cases hc : e.packetKind.countsForFlows = true
      · rw [if_pos hc, if_pos hc]
        exact htracks
      · rw [if_neg hc, if_neg hc, List.append_nil]
        exact h.flows }

/-- What is quoted after one more failed line: it goes to the end while there is room. -/
theorem take_append_toList (quotes : List ProblemLine) (quote : Option ProblemLine) (limit : Nat) :
    (quotes ++ quote.toList).take limit =
      quotes.take limit ++ if (quotes.take limit).length < limit then quote.toList else [] := by
  rw [List.length_take, List.take_append]
  cases quote with
  | none => simp
  | some quote =>
    by_cases hroom : quotes.length < limit
    · have hfits : [quote].length ≤ limit - quotes.length := by
        rw [List.length_singleton]
        omega
      rw [if_pos (by omega), Option.toList_some, List.take_of_length_le hfits,
        List.take_of_length_le (Nat.le_of_lt hroom)]
    · rw [if_neg (by omega), Nat.sub_eq_zero_of_le (by omega), List.take_zero]

/-- **A failed line extends the history of failed lines.** -/
theorem Records.recordFailure {s : Session} {events : List Event} {failures : List FailedLine}
    (h : Records s events failures) (f : FailedLine) :
    Records (s.recordFailure f.number f.text) events (failures ++ [f]) := by
  refine { h with failedLines := ?_, problemLines := ?_ }
  · show s.failedLines + 1 = _
    rw [h.failedLines, List.length_append, List.length_singleton]
  · rw [List.filterMap_append, filterMap_singleton]
    show (if _ then _ else _) = List.take s.maxProblemLines _
    rw [take_append_toList, ← h.problemLines]
    unfold FailedLine.quote?
    by_cases hlong : minQuotedLength < (Text.trim f.text).length
    · by_cases hroom : s.problemLines.length < s.maxProblemLines
      · simp [hlong, hroom]
      · simp [hlong, hroom]
    · simp [hlong]

/-- **One input.** -/
theorem Records.feed {s : Session} {events : List Event} {failures : List FailedLine}
    (h : Records s events failures) (f : Feed) :
    Records (s.feed f) (events ++ f.event?.toList) (failures ++ f.failure?.toList) := by
  cases f with
  | event e =>
    show Records (s.feedEvent e) (events ++ [e]) (failures ++ [])
    rw [List.append_nil]
    exact h.feedEvent e
  | line number text =>
    show Records (s.feedLine number text).2 (events ++ (Event.ofLine? text).toList)
      (failures ++ (if Text.isAllBlank text || (Event.ofLine? text).isSome then none
        else some (⟨number, text⟩ : FailedLine)).toList)
    unfold feedLine
    -- a blank line is neither an event nor a failure
    by_cases hblank : Text.isAllBlank text = true
    · rw [if_pos hblank, Event.ofLine?_of_isAllBlank hblank, hblank]
      simpa using h
    · rw [if_neg hblank, Bool.eq_false_iff.mpr hblank, Bool.false_or]
      cases Event.ofLine? text with
      | some e => simpa using h.feedEvent e
      | none => simpa using h.recordFailure ⟨number, text⟩

/-- **All inputs.** After a run the session records the events and the failed lines among its inputs. -/
theorem records_run (limit : Nat) (feeds : List Feed) :
    Records (run { maxProblemLines := limit } feeds) (eventsOf feeds) (failuresOf feeds) := by
  induction feeds using List.reverseRecOn with
  | nil => exact records_start limit
  | append_singleton feeds f ih =>
    -- from the end: the last input meets what all the others have left
    have hstep := ih.feed f
    have hrun : run { maxProblemLines := limit } (feeds ++ [f]) =
        (run { maxProblemLines := limit } feeds).feed f := by
      unfold run
      rw [List.foldl_append]
      rfl
    unfold eventsOf failuresOf
    rw [List.filterMap_append, List.filterMap_append, filterMap_singleton, filterMap_singleton, hrun]
    exact hstep

/-- After all lines of a trace the session records the events and the failed lines among them. -/
theorem records_feedLines (limit first : Nat) (lines : List Text) :
    Records (feedLines { maxProblemLines := limit } first lines) (lines.filterMap Event.ofLine?)
      (failuresOf (numbered first lines)) := by
  rw [feedLines_eq_run, ← eventsOf_numbered first lines]
  exact records_run limit _

/-- No input changes the limit for the samples. -/
theorem maxProblemLines_feed (s : Session) (f : Feed) :
    (s.feed f).maxProblemLines = s.maxProblemLines := by
  cases f with
  | event e =>
    show (s.feedEvent e).maxProblemLines = _
    rw [feedEvent_eq]
  | line number text =>
    show (s.feedLine number text).2.maxProblemLines = _
    unfold feedLine
    split
    · rfl
    · split
      · rw [feedEvent_eq]
      · rfl

theorem maxProblemLines_run (s : Session) (feeds : List Feed) :
    (s.run feeds).maxProblemLines = s.maxProblemLines := by
  induction feeds generalizing s with
  | nil => rfl
  | cons f feeds ih =>
    show ((s.feed f).run feeds).maxProblemLines = _
    rw [ih, maxProblemLines_feed]

end Session

end PacketTrace

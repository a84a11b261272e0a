import PacketTrace.Proofs.Report.History

/-!
# `Proofs.Report.Balance` — how the figures of a report fit together

A report gives the same packets under several headings: by event kind, by bucket, as totals and as flows.
The headings agree because all of them are summaries of one list of events (`Session.records_run`), so
the equations between them are facts about that list: each event counts in one bucket of its kind, and in
the bucket of retransmissions exactly when its flow returns.

## Contents
- **Buckets.** What `buckets` lists how often.
- **Balance.** `Report.Balanced`, and `balanced_report_run` for every run of a session.
- **Flow figures.** `aggregate_flow_figures`: the figures of the data and acknowledgement packets of a
  whole trace.
-/

namespace PacketTrace

/-! ## Buckets -/

theorem countP_bucketsOf (before : List Event) (e : Event) :
    (bucketsOf before e).countP (· ≠ .retransmissions) = 1 := by
  unfold bucketsOf
  split <;> rfl

theorem count_bucketsOf_packet (before : List Event) (e : Event) (kind : PacketKind) :
    (bucketsOf before e).count (.packet kind) = if e.packetKind = kind then 1 else 0 := by
  unfold bucketsOf
  rw [List.count_cons]
  have hrest : (if isRepeat before e then [Bucket.retransmissions] else []).count
      (.packet kind) = 0 := by
    split <;> rfl
  rw [hrest, Nat.zero_add]
  simp only [beq_iff_eq, Bucket.packet.injEq]

theorem count_bucketsOf_retransmissions (before : List Event) (e : Event) :
    (bucketsOf before e).count .retransmissions = if isRepeat before e then 1 else 0 := by
  unfold bucketsOf
  rw [List.count_cons]
  split <;> rfl

/-- Every event counts once apart from the bucket of retransmissions. -/
theorem countP_buckets (events : List Event) :
    (buckets events).countP (· ≠ .retransmissions) = events.length := by
  induction events using List.reverseRecOn with
  | nil => rfl
  | append_singleton events e ih =>
    rw [buckets_append_singleton, List.countP_append, ih, countP_bucketsOf, List.length_append,
      List.length_singleton]

theorem count_buckets_packet (events : List Event) (kind : PacketKind) :
    (buckets events).count (.packet kind) = events.countP (·.packetKind = kind) := by
  induction events using List.reverseRecOn with
  | nil => rfl
  | append_singleton events e ih =>
    rw [buckets_append_singleton, List.count_append, ih, count_bucketsOf_packet, List.countP_append,
      List.countP_singleton]
    simp only [decide_eq_true_iff]

/-- The bucket of retransmissions counts the flows that return. -/
theorem count_buckets_retransmissions (events : List Event) :
    (buckets events).count .retransmissions = repeatCount (flowKeys events) := by
  induction events using List.reverseRecOn with
  | nil => rfl
  | append_singleton events e ih =>
    rw [buckets_append_singleton, List.count_append, ih, count_bucketsOf_retransmissions,
      repeatCount_flowKeys_append_singleton]

/-- The packets that count for flows are those of two kinds. -/
theorem length_flowEvents (events : List Event) :
    events.countP (·.packetKind = .data) + events.countP (·.packetKind = .ack) =
      (flowEvents events).length := by
  induction events with
  | nil => rfl
  | cons e events ih =>
    unfold flowEvents at ih ⊢
    rw [List.countP_cons, List.countP_cons, List.filter_cons]
    cases e.packetKind <;> simp only [reduceCtorEq, decide_true, decide_false, Bool.or_true,
      Bool.or_false, Bool.false_eq_true, if_true, if_false, List.length_cons] <;> omega

/-! ## Balance -/

/-- **The figures of a report fit together.** -/
structure Report.Balanced (r : Report) : Prop where
  /-- Every event has a kind. -/
  events : (r.eventTypes.map (·.2)).sum = r.parsedLines
  /-- Every event has a packet kind. -/
  packets : ((r.packetTypes.filter (·.1 ≠ .retransmissions)).map (·.2)).sum = r.parsedLines
  /-- Data and acknowledgement packets are the ones that are measured. -/
  measured : r.packetCount (.packet .data) + r.packetCount (.packet .ack) = r.totalPackets
  retransmissions : r.packetCount .retransmissions = r.retransmittedPackets
  /-- A measured packet is a retransmission or the first of its flow. -/
  flows : r.retransmittedPackets + r.uniqueFlows = r.totalPackets
  /-- Not every measured packet is a retransmission. -/
  fresh : 0 < r.totalPackets → r.retransmittedPackets < r.totalPackets
  synthetic : r.syntheticSeqs ≤ r.parsedLines
  eventKeys : (r.eventTypes.map (·.1)).Nodup
  eventCounts : ∀ entry ∈ r.eventTypes, 1 ≤ entry.2
  packetKeys : (r.packetTypes.map (·.1)).Nodup
  packetCounts : ∀ entry ∈ r.packetTypes, 1 ≤ entry.2
  startTime : r.startTime = none ↔ r.parsedLines = 0
  endTime : r.endTime = none ↔ r.parsedLines = 0

/-- There is a first time as soon as there is an event. -/
theorem Session.Records.startTime_eq_none {s : Session} {events : List Event}
    {failures : List FailedLine} (h : s.Records events failures) :
    s.startTime = none ↔ s.parsedLines = 0 := by
  rw [h.startTime, h.parsedLines, List.head?_eq_none_iff, List.map_eq_nil_iff, List.length_eq_zero_iff]

/-- A flow that returns was there before, so the first measured packet opens a flow. -/
theorem repeatCount_lt_length {keys : List FlowKey} (h : 0 < keys.length) :
    repeatCount keys < keys.length := by
  have hsum := repeatCount_add_card keys
  have hflow : 0 < keys.toFinset.card := by
    obtain ⟨key, hkey⟩ := List.exists_mem_of_length_pos h
    exact Finset.card_pos.mpr ⟨key, List.mem_toFinset.mpr hkey⟩
  omega

theorem length_flowKeys (events : List Event) :
    (flowKeys events).length = (flowEvents events).length :=
  List.length_map Event.key

theorem Session.Records.balanced {s : Session} {events : List Event} {failures : List FailedLine}
    (h : s.Records events failures) : s.report.Balanced where
  events := by
    show (s.eventTypes.entries.map (·.2)).sum = s.parsedLines
    rw [← Tally.total_eq_sum, h.eventTypes, Tally.total_ofKeys, List.length_map, h.parsedLines]
  packets := by
    show ((s.packetTypes.entries.filter (·.1 ≠ .retransmissions)).map (·.2)).sum = s.parsedLines
    have hsum := Tally.sumWhere_ofKeys (· ≠ .retransmissions) (buckets events)
    rw [countP_buckets, Tally.sumWhere] at hsum
    rw [h.packetTypes, h.parsedLines, hsum]
  measured := by
    show countOf s.packetTypes.entries _ + countOf s.packetTypes.entries _ = s.totalPackets
    rw [h.packetTypes, Tally.countOf_ofKeys, Tally.countOf_ofKeys, count_buckets_packet,
      count_buckets_packet, length_flowEvents, h.totalPackets]
  retransmissions := by
    show countOf s.packetTypes.entries _ = s.retransmittedPackets
    rw [h.packetTypes, Tally.countOf_ofKeys, count_buckets_retransmissions, h.retransmittedPackets]
  flows := by
    show s.retransmittedPackets + s.flows.size = s.totalPackets
    rw [h.retransmittedPackets, h.flows.size, repeatCount_add_card, length_flowKeys, h.totalPackets]
  fresh := by
    show 0 < s.totalPackets → s.retransmittedPackets < s.totalPackets
    rw [h.retransmittedPackets, h.totalPackets, ← length_flowKeys]
    exact repeatCount_lt_length
  synthetic := by
    show s.syntheticSeqs ≤ s.parsedLines
    rw [h.syntheticSeqs, h.parsedLines]
    exact List.countP_le_length
  eventKeys := by
    show (s.eventTypes.entries.map (·.1)).Nodup
    rw [h.eventTypes]
    exact Tally.nodup_ofKeys _
  eventCounts := by
    show Tally.Positive s.eventTypes.entries
    rw [h.eventTypes]
    exact Tally.positive_ofKeys _
  packetKeys := by
    show (s.packetTypes.entries.map (·.1)).Nodup
    rw [h.packetTypes]
    exact Tally.nodup_ofKeys _
  packetCounts := by
    show Tally.Positive s.packetTypes.entries
    rw [h.packetTypes]
    exact Tally.positive_ofKeys _
  startTime := h.startTime_eq_none
  endTime := by
    show s.startTime.map _ = none ↔ s.parsedLines = 0
    rw [Option.map_eq_none_iff]
    exact h.startTime_eq_none

/-- Every input that counts is an event or a failed line, and not both. -/
theorem length_eventsOf_add_failuresOf (feeds : List Feed) :
    (eventsOf feeds).length + (failuresOf feeds).length = feeds.countP Feed.isCounted := by
  induction feeds with
  | nil => rfl
  | cons f feeds ih =>
    have hone : f.event?.toList.length + f.failure?.toList.length = if f.isCounted then 1 else 0 := by
      cases f with
      | event e => rfl
      | line number text =>
        show (Event.ofLine? text).toList.length +
          (if Text.isAllBlank text || (Event.ofLine? text).isSome then none
            else some (⟨number, text⟩ : FailedLine)).toList.length =
          if (!Text.isAllBlank text) = true then 1 else 0
        by_cases hblank : Text.isAllBlank text = true
        · rw [Event.ofLine?_of_isAllBlank hblank, hblank]
          rfl
        · rw [Bool.eq_false_iff.mpr hblank]
          cases Event.ofLine? text <;> rfl
    unfold eventsOf failuresOf at ih ⊢
    rw [← List.singleton_append, List.filterMap_append, List.filterMap_append, List.length_append,
      List.length_append, List.countP_append, List.countP_singleton, ← ih, ← hone, filterMap_singleton,
      filterMap_singleton]
    omega

/-- **Every run of a session ends in balance.** Whatever lines and events a session takes, in whatever
    order, its report is balanced, and what it took was parsed or failed unless it was a blank line. -/
theorem balanced_report_run (limit : Nat) (feeds : List Feed) :
    let r := (Session.run { maxProblemLines := limit } feeds).report
    r.Balanced ∧ r.parsedLines + r.failedLines = feeds.countP Feed.isCounted := by
  have h := Session.records_run limit feeds
  refine ⟨h.balanced, ?_⟩
  show Session.parsedLines _ + Session.failedLines _ = _
  rw [h.parsedLines, h.failedLines, length_eventsOf_add_failuresOf]

/-! ## Flow figures -/

/-- **The flow figures of a trace.** Only the data and acknowledgement packets matter for them, in the
    order of their lines: a packet is retransmitted when its node and number occur at an earlier one. -/
theorem aggregate_flow_figures (lines : List Text) :
    let packets := (lines.filterMap Event.ofLine?).filter
      fun e => e.packetKind = .data || e.packetKind = .ack
    let keys := packets.map Event.key
    let r := aggregate lines
    r.totalPackets = packets.length ∧
    r.totalBytes = min (packets.map (·.packetSize)).sum (2 ^ 64 - 1) ∧
    r.uniqueFlows = keys.toFinset.card ∧
    r.retransmittedPackets = repeatCount keys ∧
    r.retransmittedPackets + r.uniqueFlows = r.totalPackets ∧
    r.retransmissionRate =
      (if packets.length = 0 then 0.0
        else Float.ofNat (repeatCount keys) / Float.ofNat packets.length * 100.0) ∧
    r.avgPacketsPerFlow =
      (if keys.toFinset.card = 0 then 0.0
        else Float.ofNat packets.length / Float.ofNat keys.toFinset.card) := by
  intro packets keys r
  have h : Session.Records (Session.feedLines {} 1 lines) (lines.filterMap Event.ofLine?)
      (failuresOf (Session.numbered 1 lines)) := by
    rw [Session.feedLines_eq_run, ← Session.eventsOf_numbered 1 lines]
    exact Session.records_run 10 _
  have hpackets : r.totalPackets = packets.length := h.totalPackets
  have hflows : r.uniqueFlows = keys.toFinset.card := h.flows.size
  have hrepeats : r.retransmittedPackets = repeatCount keys := h.retransmittedPackets
  refine ⟨hpackets, h.totalBytes, hflows, hrepeats, h.balanced.flows, ?_, ?_⟩
  · show Metrics.percentage r.retransmittedPackets r.totalPackets = _
    rw [hrepeats, hpackets, Metrics.percentage]
    by_cases hempty : packets.length = 0
    · rw [if_pos hempty, hempty, if_neg (Nat.lt_irrefl 0)]
    · rw [if_neg hempty, if_pos (Nat.pos_of_ne_zero hempty)]
  · show Metrics.averagePerFlow r.totalPackets r.uniqueFlows = _
    rw [hpackets, hflows, Metrics.averagePerFlow]
    by_cases hempty : keys.toFinset.card = 0
    · rw [if_pos hempty, hempty, if_neg (Nat.lt_irrefl 0)]
    · rw [if_neg hempty, if_pos (Nat.pos_of_ne_zero hempty)]

end PacketTrace

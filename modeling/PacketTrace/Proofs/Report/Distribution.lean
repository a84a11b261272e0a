import PacketTrace.Proofs.Report.Balance

/-!
# `Proofs.Report.Distribution` — the two distributions of a report

A report lists the event kinds and the buckets of the packets, each in the order in which they first appeared.
For the kinds that is the order of the events. The buckets come from a longer sequence: an event is followed by
a retransmission where its flow returns, so where that bucket is listed depends on what was counted before the
first flow that returned. `buckets_eq_flatMap` gives the sequence by places: what an event adds to it depends on
the events at earlier places only.

## Contents
- **The sequence of buckets.** `bucketsFrom_eq_flatMap` and `buckets_eq_flatMap`.
- **Distributions.** `aggregate_distributions`: both lists of a report, and its counts.
-/

namespace PacketTrace

/-! ## The sequence of buckets -/

theorem bucketsFrom_eq_flatMap (before events : List Event) :
    bucketsFrom before events =
      (events.zipIdx before.length).flatMap fun entry =>
        bucketsOf ((before ++ events).take entry.2) entry.1 := by
  induction events generalizing before with
  | nil => rfl
  | cons e rest ih =>
    have hrest := ih (before ++ [e])
    rw [List.length_append, List.length_singleton, List.append_assoc, List.singleton_append] at hrest
    rw [bucketsFrom, hrest, List.zipIdx_cons, List.flatMap_cons, List.take_left]

/-- **What an event counts in**, told by its place: the bucket of its kind, and then retransmissions if its flow
    has a packet at an earlier place. -/
theorem buckets_eq_flatMap (events : List Event) :
    buckets events = events.zipIdx.flatMap fun entry => bucketsOf (events.take entry.2) entry.1 :=
  bucketsFrom_eq_flatMap [] events

/-! ## Distributions -/

/-- **The distributions of a trace.** The event kinds stand in the order of their first events, each with the
    number of its events. The buckets stand in the order of their first places in the sequence that counts each
    event in the bucket of its kind and, if it is a data or acknowledgement packet whose flow an earlier such
    packet belongs to, directly afterwards as a retransmission; each has the number of its places there. The
    counts that can be asked for are these numbers, and zero for what is not listed. -/
theorem aggregate_distributions (lines : List Text) :
    let events := lines.filterMap Event.ofLine?
    let kinds := events.map (·.kind)
    let sequence := events.zipIdx.flatMap fun entry =>
      Bucket.packet entry.1.packetKind ::
        if isRepeat (events.take entry.2) entry.1 then [.retransmissions] else []
    let r := aggregate lines
    r.eventTypes = kinds.eraseDups.map (fun kind => (kind, kinds.count kind)) ∧
    r.packetTypes = sequence.eraseDups.map (fun bucket => (bucket, sequence.count bucket)) ∧
    (∀ kind, r.eventCount kind = kinds.count kind ∧
      (r.eventCount kind = 0 ↔ kind ∉ r.eventTypes.map (·.1))) ∧
    ∀ bucket, r.packetCount bucket = sequence.count bucket ∧
      (r.packetCount bucket = 0 ↔ bucket ∉ r.packetTypes.map (·.1)) := by
  intro events kinds sequence r
  have h := Session.records_feedLines 10 1 lines
  have hsequence : sequence = buckets events := (buckets_eq_flatMap events).symm
  have hkinds : r.eventTypes = (Tally.ofKeys kinds).entries := congrArg Tally.entries h.eventTypes
  have hbuckets : r.packetTypes = (Tally.ofKeys sequence).entries := by
    rw [hsequence]
    exact congrArg Tally.entries h.packetTypes
  refine ⟨?_, ?_, fun kind => ⟨?_, ?_⟩, fun bucket => ⟨?_, ?_⟩⟩
  · rw [hkinds, Tally.entries_ofKeys]
  · rw [hbuckets, Tally.entries_ofKeys]
  · rw [Report.eventCount, hkinds, Tally.countOf_ofKeys]
  · rw [Report.eventCount, hkinds, Tally.countOf_ofKeys_eq_zero_iff]
  · rw [Report.packetCount, hbuckets, Tally.countOf_ofKeys]
  · rw [Report.packetCount, hbuckets, Tally.countOf_ofKeys_eq_zero_iff]

/-- A flow returns before the first control packet is seen, so its bucket is listed before that of the packet. -/
example :
    (aggregate ["- 0.1 /NodeList/0/x length: 1000 Seq=1".toList, "r 0.2 /NodeList/0/x length: 1000 Seq=1".toList,
      "+ 0.3 /NodeList/0/x length: 40 [SYN] Seq=0".toList]).packetTypes =
      [(.packet .data, 2), (.retransmissions, 1), (.packet .syn, 1)] := by
  decide +kernel

end PacketTrace

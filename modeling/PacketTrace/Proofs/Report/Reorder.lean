import PacketTrace.Proofs.Report.Split

/-!
# `Proofs.Report.Reorder` — the report on the lines of a trace in another order

Which packet is called a retransmission depends on the order of the lines: it is the one whose flow came
before. How many there are does not, since each flow has one packet that came first and the others return
(`repeatCount_add_card`). All other counts do not look at the order at all, and the latest time is a
maximum. So a report on the same lines in another order may differ only in what is told in order: the two
distributions as lists, the first time with what is computed from it, and the quoted lines.

## Contents
- **Events.** Flows, repeats and buckets of the same events in another order.
- **Failed lines.** How many there are.
- **Reports.** `Report.Reordered` and `reordered_aggregate_perm`.
-/

namespace PacketTrace

/-! ## Events -/

/-- A flow has one packet that came first, whichever it is. -/
theorem repeatCount_perm {κ : Type} [DecidableEq κ] {xs ys : List κ} (h : xs.Perm ys) :
    repeatCount xs = repeatCount ys := by
  have hxs := repeatCount_add_card xs
  have hys := repeatCount_add_card ys
  rw [List.toFinset_eq_of_perm xs ys h, h.length_eq] at hxs
  omega

theorem flowEvents_perm {xs ys : List Event} (h : xs.Perm ys) : (flowEvents xs).Perm (flowEvents ys) :=
  h.filter _

theorem flowKeys_perm {xs ys : List Event} (h : xs.Perm ys) : (flowKeys xs).Perm (flowKeys ys) :=
  (flowEvents_perm h).map Event.key

/-- In another order other packets may count as retransmissions, but as many. -/
theorem buckets_perm {xs ys : List Event} (h : xs.Perm ys) : (buckets xs).Perm (buckets ys) := by
  rw [List.perm_iff_count]
  intro bucket
  cases bucket with
  | packet kind => rw [count_buckets_packet, count_buckets_packet, h.countP_eq]
  | retransmissions =>
    rw [count_buckets_retransmissions, count_buckets_retransmissions, repeatCount_perm (flowKeys_perm h)]

/-- The latest time is a maximum, and there is one if there is an event. -/
theorem latest?_perm {xs ys : List Float} (h : xs.Perm ys) (hxs : ∀ t ∈ xs, Unsigned t) :
    latest? xs = latest? ys := by
  unfold latest?
  rw [foldl_laterTime_perm h hxs]
  cases xs with
  | nil => rw [h.nil_eq]
  | cons x xs =>
    cases ys with
    | nil => exact absurd h.eq_nil (List.cons_ne_nil x xs)
    | cons y ys => rfl

/-! ## Failed lines -/

/-- A line fails if it is neither blank nor an event, whatever its number. -/
def isFailed (line : Text) : Bool := !(Text.isAllBlank line || (Event.ofLine? line).isSome)

theorem length_failuresOf_numbered (first : Nat) (lines : List Text) :
    (failuresOf (Session.numbered first lines)).length = lines.countP isFailed := by
  induction lines generalizing first with
  | nil => rfl
  | cons line lines ih =>
    have hline : (Feed.failure? (.line first line)).toList.length = if isFailed line then 1 else 0 := by
      unfold Feed.failure? isFailed
      dsimp only
      cases Text.isAllBlank line || (Event.ofLine? line).isSome <;> rfl
    unfold failuresOf at ih ⊢
    rw [Session.numbered, ← List.singleton_append, List.filterMap_append, List.length_append,
      filterMap_singleton, hline, ih, List.countP_cons, Nat.add_comm]

/-! ## Reports -/

namespace Report

/-- **Two reports that differ in order only.** All counts agree, and all that is computed from counts; the
    first time may be another one. -/
structure Reordered (a b : Report) : Prop where
  parsedLines : a.parsedLines = b.parsedLines
  failedLines : a.failedLines = b.failedLines
  successRate : a.successRate = b.successRate
  eventCount (kind : EventKind) : a.eventCount kind = b.eventCount kind
  eventTypes : a.eventTypes.Perm b.eventTypes
  totalPackets : a.totalPackets = b.totalPackets
  retransmittedPackets : a.retransmittedPackets = b.retransmittedPackets
  retransmissionRate : a.retransmissionRate = b.retransmissionRate
  totalBytes : a.totalBytes = b.totalBytes
  endTime : a.endTime = b.endTime
  packetCount (bucket : Bucket) : a.packetCount bucket = b.packetCount bucket
  packetTypes : a.packetTypes.Perm b.packetTypes
  uniqueFlows : a.uniqueFlows = b.uniqueFlows
  avgPacketsPerFlow : a.avgPacketsPerFlow = b.avgPacketsPerFlow
  syntheticSeqs : a.syntheticSeqs = b.syntheticSeqs
  /-- Only through the first time can these two differ. -/
  duration : a.startTime = b.startTime → a.duration = b.duration
  throughputBps : a.startTime = b.startTime → a.throughputBps = b.throughputBps

end Report

/-- **Histories in another order.** Sessions that record the same events in another order, and as many
    failed lines, report the same but for the order. -/
theorem Session.Records.reordered {s t : Session} {xs ys : List Event} {fs gs : List FailedLine}
    (hs : s.Records xs fs) (ht : t.Records ys gs) (hevents : xs.Perm ys) (hfailures : fs.length = gs.length)
    (htimes : ∀ time ∈ xs.map (·.time), Unsigned time) : s.report.Reordered t.report := by
  have hparsed : s.parsedLines = t.parsedLines := by
    rw [hs.parsedLines, ht.parsedLines, hevents.length_eq]
  have hfailed : s.failedLines = t.failedLines := by
    rw [hs.failedLines, ht.failedLines, hfailures]
  have hpackets : s.totalPackets = t.totalPackets := by
    rw [hs.totalPackets, ht.totalPackets, (flowEvents_perm hevents).length_eq]
  have hrepeats : s.retransmittedPackets = t.retransmittedPackets := by
    rw [hs.retransmittedPackets, ht.retransmittedPackets, repeatCount_perm (flowKeys_perm hevents)]
  have hbytes : s.totalBytes = t.totalBytes := by
    rw [hs.totalBytes, ht.totalBytes, ((flowEvents_perm hevents).map _).sum_eq]
  have hflows : s.flows.size = t.flows.size := by
    rw [hs.flows.size, ht.flows.size, List.toFinset_eq_of_perm _ _ (flowKeys_perm hevents)]
  have hkinds : (xs.map (·.kind)).Perm (ys.map (·.kind)) := hevents.map _
  have hend : s.report.endTime = t.report.endTime := by
    rw [hs.endTime, ht.endTime]
    exact latest?_perm (hevents.map _) htimes
  have hduration : s.report.startTime = t.report.startTime → s.report.duration = t.report.duration := by
    intro hstart
    rw [hs.derived.duration, ht.derived.duration, hstart, hend]
  exact {
    parsedLines := hparsed
    failedLines := hfailed
    successRate := by
      show Metrics.successRate s.parsedLines s.failedLines = Metrics.successRate t.parsedLines t.failedLines
      rw [hparsed, hfailed]
    eventCount := by
      intro kind
      show countOf s.eventTypes.entries kind = countOf t.eventTypes.entries kind
      rw [hs.eventTypes, ht.eventTypes, Tally.countOf_ofKeys, Tally.countOf_ofKeys, hkinds.count_eq]
    eventTypes := by
      show s.eventTypes.entries.Perm t.eventTypes.entries
      rw [hs.eventTypes, ht.eventTypes]
      exact Tally.perm_ofKeys hkinds
    totalPackets := hpackets
    retransmittedPackets := hrepeats
    retransmissionRate := by
      show Metrics.retransmissionRate s.retransmittedPackets s.totalPackets =
        Metrics.retransmissionRate t.retransmittedPackets t.totalPackets
      rw [hrepeats, hpackets]
    totalBytes := hbytes
    endTime := hend
    packetCount := by
      intro bucket
      show countOf s.packetTypes.entries bucket = countOf t.packetTypes.entries bucket
      rw [hs.packetTypes, ht.packetTypes, Tally.countOf_ofKeys, Tally.countOf_ofKeys,
        (buckets_perm hevents).count_eq]
    packetTypes := by
      show s.packetTypes.entries.Perm t.packetTypes.entries
      rw [hs.packetTypes, ht.packetTypes]
      exact Tally.perm_ofKeys (buckets_perm hevents)
    uniqueFlows := hflows
    avgPacketsPerFlow := by
      show Metrics.averagePerFlow s.totalPackets s.flows.size =
        Metrics.averagePerFlow t.totalPackets t.flows.size
      rw [hpackets, hflows]
    syntheticSeqs := by
      show s.syntheticSeqs = t.syntheticSeqs
      rw [hs.syntheticSeqs, ht.syntheticSeqs, hevents.countP_eq]
    duration := hduration
    throughputBps := by
      intro hstart
      show Metrics.throughput s.totalBytes s.report.duration = Metrics.throughput t.totalBytes t.report.duration
      rw [hbytes, hduration hstart] }

/-- **The order of the lines does not matter**, except for what a report tells in order. -/
theorem reordered_aggregate_perm {lines lines' : List Text} (h : lines.Perm lines') :
    (aggregate lines).Reordered (aggregate lines') := by
  have hfailures : (failuresOf (Session.numbered 1 lines)).length =
      (failuresOf (Session.numbered 1 lines')).length := by
    rw [length_failuresOf_numbered, length_failuresOf_numbered, h.countP_eq]
  exact (Session.records_feedLines 10 1 lines).reordered (Session.records_feedLines 10 1 lines')
    (h.filterMap _) hfailures (unsigned_times lines)

/-- Two packets of one flow change places. The report still counts one retransmission, and everything that it
    tells in order is another. -/
theorem reordered_sample :
    let first := "r 2.0 /NodeList/0/x length: 40 Seq=1".toList
    let second := "+ 1.0 /NodeList/0/x length: 52 Seq=1".toList
    let noise := "neither blank nor an event".toList
    let a := aggregate [first, second, noise]
    let b := aggregate [noise, second, first]
    [first, second, noise].Perm [noise, second, first] ∧ a.Reordered b ∧ a.retransmittedPackets = 1 ∧
      a.startTime ≠ b.startTime ∧ a.duration ≠ b.duration ∧ a.eventTypes ≠ b.eventTypes ∧
      a.problemLines ≠ b.problemLines := by
  intro first second noise a b
  have hperm : [first, second, noise].Perm [noise, second, first] := (List.reverse_perm _).symm
  exact ⟨hperm, reordered_aggregate_perm hperm, by decide +kernel, by decide +kernel, by decide +kernel,
    by decide +kernel, by decide +kernel⟩

end PacketTrace

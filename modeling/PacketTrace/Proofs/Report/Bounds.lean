import Mathlib
import PacketTrace.Proofs.Float.Magnitude
import PacketTrace.Proofs.Report.Balance
import PacketTrace.Proofs.Report.Saved
import PacketTrace.Proofs.Text.Lines

/-!
# `Proofs.Report.Bounds` — the size of the figures of a trace

Every count of a report is at most the number of lines, except for the bytes, which stop at the largest word.
So a trace that is not longer than the largest word has a report whose counts are words. A figure that is
computed from two counts is then finite, since no count is zero or larger than a word where it is divided by.

## Contents
- **Counts.** `Session.Records.words`, `words_feedLines` for lines and `words_aggregateBytes` for a file.
- **Figures.** `isFinite_percentage` and `isFinite_averagePerFlow`.
-/

namespace PacketTrace

/-! ## Counts -/

/-- The counts of a session are words if it was given so many events and failed lines. -/
theorem Session.Records.words {s : Session} {events : List Event} {failures : List FailedLine}
    (h : s.Records events failures) (hevents : events.length ≤ maxWord)
    (hfailures : failures.length ≤ maxWord) (hnumbers : ∀ f ∈ failures, f.number ≤ maxWord) :
    s.report.Words := by
  have hpackets : s.totalPackets ≤ maxWord := by
    rw [h.totalPackets]
    exact le_trans (List.length_filter_le _ _) hevents
  have hflows : s.retransmittedPackets + s.flows.size = s.totalPackets := h.balanced.flows
  constructor
  case parsedLines => exact h.parsedLines.trans_le hevents
  case failedLines => exact h.failedLines.trans_le hfailures
  case totalPackets => exact hpackets
  case retransmittedPackets => exact le_trans (Nat.le_add_right _ _) (hflows.trans_le hpackets)
  case totalBytes => exact h.totalBytes.trans_le (min_le_right _ _)
  case uniqueFlows => exact le_trans (Nat.le_add_left _ _) (hflows.trans_le hpackets)
  case syntheticSeqs =>
    exact h.syntheticSeqs.trans_le (le_trans List.countP_le_length hevents)
  case eventTypes =>
    intro entry hentry
    change entry ∈ s.eventTypes.entries at hentry
    rw [h.eventTypes] at hentry
    rw [Tally.count_of_mem_ofKeys hentry]
    refine le_trans List.count_le_length ?_
    rw [List.length_map]
    exact hevents
  case packetTypes =>
    intro entry hentry
    change entry ∈ s.packetTypes.entries at hentry
    rw [h.packetTypes] at hentry
    rw [Tally.count_of_mem_ofKeys hentry]
    -- a bucket holds the packets of one kind, or the flows that return
    obtain ⟨bucket, n⟩ := entry
    cases bucket with
    | packet kind =>
      rw [count_buckets_packet]
      exact le_trans List.countP_le_length hevents
    | retransmissions =>
      rw [count_buckets_retransmissions, ← h.retransmittedPackets]
      exact le_trans (by omega) hpackets
  case problemLines =>
    intro p hp
    change p ∈ s.problemLines at hp
    rw [h.problemLines] at hp
    obtain ⟨f, hf, hquote⟩ := List.mem_filterMap.mp (List.mem_of_mem_take hp)
    unfold FailedLine.quote? at hquote
    split at hquote
    · cases hquote
      exact hnumbers f hf
    · cases hquote

theorem number_lt_of_mem_failuresOf {first : Nat} {lines : List Text} {f : FailedLine}
    (h : f ∈ failuresOf (Session.numbered first lines)) : f.number < first + lines.length := by
  induction lines generalizing first with
  | nil => cases h
  | cons line lines ih =>
    unfold failuresOf Session.numbered at h
    rw [List.filterMap_cons] at h
    rw [List.length_cons]
    have hrest (h : f ∈ failuresOf (Session.numbered (first + 1) lines)) :
        f.number < first + (lines.length + 1) := by
      have hlt := ih h
      omega
    split at h
    · exact hrest h
    · rename_i g hg
      rcases List.mem_cons.mp h with rfl | hmem
      · unfold Feed.failure? at hg
        dsimp only at hg
        split at hg
        · cases hg
        · cases hg
          show first < _
          omega
      · exact hrest hmem

theorem length_numbered (first : Nat) (lines : List Text) :
    (Session.numbered first lines).length = lines.length := by
  induction lines generalizing first with
  | nil => rfl
  | cons line lines ih => rw [Session.numbered, List.length_cons, ih, List.length_cons]

/-- Every line has at least one byte. -/
theorem length_rawLines_le (bytes : Bytes) : (rawLines bytes).length ≤ bytes.length := by
  induction bytes with
  | nil => exact Nat.le_refl 0
  | cons b bytes ih =>
    rw [rawLines_cons, List.length_cons]
    split
    · exact Nat.succ_le_succ ih
    · split
      · exact Nat.succ_le_succ (Nat.zero_le _)
      · rename_i line others hlines
        rw [hlines] at ih
        exact Nat.le_succ_of_le ih

/-- The counts of a trace are words if the number of its lines is one, even those of parsed and failed lines
together. -/
theorem words_feedLines (samples : Nat) {lines : List Text} (hlength : lines.length ≤ maxWord) :
    let r := (Session.feedLines { maxProblemLines := samples } 1 lines).report
    r.Words ∧ r.parsedLines + r.failedLines ≤ maxWord := by
  have hrecords := Session.records_feedLines samples 1 lines
  -- no line is both an event and a failure
  have hcounted : (lines.filterMap Event.ofLine?).length + (failuresOf (Session.numbered 1 lines)).length ≤
      lines.length := by
    rw [← Session.eventsOf_numbered 1 lines, length_eventsOf_add_failuresOf]
    exact le_trans List.countP_le_length (length_numbered 1 lines).le
  constructor
  · refine hrecords.words (by omega) (by omega) fun f hf => ?_
    have hnumber := number_lt_of_mem_failuresOf hf
    omega
  · show Session.parsedLines _ + Session.failedLines _ ≤ _
    rw [hrecords.parsedLines, hrecords.failedLines]
    exact le_trans hcounted hlength

/-- **The counts of a trace are words** if the length of the trace is one, even those of parsed and failed
lines together. -/
theorem words_aggregateBytes {bytes : Bytes} (hsize : bytes.length ≤ maxWord) (samples : Nat) :
    (aggregateBytes bytes samples).Words ∧
      (aggregateBytes bytes samples).parsedLines + (aggregateBytes bytes samples).failedLines ≤ maxWord := by
  have hlength : ((rawLines bytes).map Utf8.decodeLossy).length ≤ maxWord := by
    rw [List.length_map]
    exact le_trans (length_rawLines_le bytes) hsize
  exact words_feedLines samples hlength

/-! ## Figures -/

/-- A quotient of two words is finite, and not much larger than a word. -/
theorem exists_magnitude_quotient {n d : Nat} (hn : n ≤ maxWord) (hd : d ≤ maxWord) (hpos : 0 < d) :
    ∃ q, floatMagnitude? (Float.ofNat n / Float.ofNat d) = some q ∧ q ≤ 2 ^ 67 := by
  obtain ⟨v, hv, hvle, -⟩ := nearTo_ofNat hn
  obtain ⟨w, hw, -, hlew⟩ := nearTo_ofNat hd
  have hn' := cast_le_of_word hn
  have hd' : (1 : ℚ) ≤ d := by exact_mod_cast hpos
  have hhalf : (1 : ℚ) / 2 ≤ w := by linarith
  have hwpos : 0 < w := by linarith
  have hquotient : v / w ≤ 2 ^ 66 := by
    rw [div_le_iff₀ hwpos]
    linarith
  obtain ⟨q, hq, hle, -⟩ := exists_magnitude_div hv hw hwpos
    (lt_of_le_of_lt hquotient (two_pow_lt_largest (by decide)))
  refine ⟨q, hq, ?_⟩
  have herror := roundingError_mono hquotient
  have herror' := roundingError_le_of_one_le (show (1 : ℚ) ≤ 2 ^ 66 by norm_num)
  linarith

/-- **A percentage of words is finite.** -/
theorem isFinite_percentage {part whole : Nat} (hpart : part ≤ maxWord) (hwhole : whole ≤ maxWord) :
    (Metrics.percentage part whole).isFinite = true := by
  unfold Metrics.percentage
  split
  · rename_i hpos
    obtain ⟨q, hq, hle⟩ := exists_magnitude_quotient hpart hwhole hpos
    have hhundred : floatMagnitude? 100.0 = some 100 := by decide +kernel
    have hlt : q * 100 < largest := by
      have hlargest : (2 : ℚ) ^ 74 < largest := two_pow_lt_largest (by decide)
      linarith
    obtain ⟨p, hp, -⟩ := exists_magnitude_mul hq hhundred hlt
    exact (isFinite_of_magnitude hp).1
  · rfl

theorem isFinite_averagePerFlow {packets flows : Nat} (hpackets : packets ≤ maxWord)
    (hflows : flows ≤ maxWord) : (Metrics.averagePerFlow packets flows).isFinite = true := by
  unfold Metrics.averagePerFlow
  split
  · rename_i hpos
    obtain ⟨q, hq, -⟩ := exists_magnitude_quotient hpackets hflows hpos
    exact (isFinite_of_magnitude hq).1
  · rfl

end PacketTrace

import PacketTrace.Proofs.Report.Bounds
import PacketTrace.Proofs.Report.Split

/-!
# `Proofs.Report.Figures` — the figures of a trace are numbers, and none is below zero

The figures of a report are computed in floats, where a difference or a quotient need not be a number: infinity
minus infinity is none, nor is infinity over infinity, and zero over zero. Times may be infinite, since a line
may have any number of digits, so all of this has to be excluded.

The duration is excluded by its own guard, which asks whether the difference is above zero: only a number without
a minus sign is (`isPositive_of_zero_lt`). What is divided by the duration is a number of bytes, and that is
finite since the sum of the bytes stops at the largest word; so even an infinite duration gives a number. All
other quotients divide by a count that is a word, which as a float is above zero and finite
(`isPositiveFinite_ofNat`).

## Contents
- **Counts.** A count as a float.
- **Metrics.** One lemma for each of them.
- **Reports.** `figures_aggregate`, from the figures that come from times and bytes and those that are quotients
  of two counts.
-/

namespace PacketTrace

open Float.Model
open Float.Model.UnpackedFloat

/-! ## Counts -/

/-- A number without a minus sign is above zero and finite if its value is. -/
theorem Unsigned.isPositiveFinite {x : Float} (hx : Unsigned x) {v : ℚ} (hv : floatMagnitude? x = some v)
    (hpos : 0 < v) : IsPositiveFinite x.toModel.unpack := by
  unfold Unsigned at hx
  unfold floatMagnitude? at hv
  generalize x.toModel.unpack = u at hx hv ⊢
  rcases u with (_ | _) | _ | (_ | _) | ⟨_ | _, m, e, hm⟩
  case infinity.positive => cases hv
  case zero.positive =>
    cases hv
    exact absurd hpos (lt_irrefl 0)
  case finite.positive => trivial
  all_goals exact hx.elim

/-- A count that is divided by is above zero and finite. -/
theorem isPositiveFinite_ofNat {n : Nat} (hpos : 0 < n) (hn : n ≤ maxWord) :
    IsPositiveFinite (Float.ofNat n).toModel.unpack := by
  obtain ⟨v, hv, -, hle⟩ := nearTo_ofNat hn
  have hone : (1 : ℚ) ≤ n := by exact_mod_cast hpos
  apply (unsigned_ofNat n).isPositiveFinite hv
  linarith

/-- The bits of so many bytes are a finite number. -/
theorem isFinite_bits {bytes : Nat} (h : bytes ≤ maxWord) : (Float.ofNat bytes * 8.0).isFinite = true := by
  obtain ⟨v, hv, hle, -⟩ := nearTo_ofNat h
  have hbyte : floatMagnitude? 8.0 = some 8 := by decide +kernel
  have hword := cast_le_of_word h
  have hlt : v * 8 < largest := by
    have hlargest : (2 : ℚ) ^ 68 < largest := two_pow_lt_largest (by decide)
    linarith
  obtain ⟨q, hq, -⟩ := exists_magnitude_mul hv hbyte hlt
  exact (isFinite_of_magnitude hq).1

/-! ## Metrics -/

/-- **The time between any two times**, also where one of them is infinite or no number. -/
theorem unsigned_elapsed (start : Option Float) (latest : Float) : Unsigned (Metrics.elapsed start latest) := by
  unfold Metrics.elapsed
  cases start with
  | none => exact unsigned_zero
  | some first =>
    dsimp only
    split
    · rename_i hlater
      exact (isPositive_of_zero_lt hlater).isUnsigned
    · exact unsigned_zero

/-- **The throughput in any time**, be it too short or infinite. -/
theorem unsigned_throughput {bytes : Nat} (h : bytes ≤ maxWord) (seconds : Float) :
    Unsigned (Metrics.throughput bytes seconds) := by
  unfold Metrics.throughput
  split
  · rename_i hseconds
    have hbyte : IsPositiveFinite (8.0 : Float).toModel.unpack := by decide +kernel
    have hbits : Unsigned (Float.ofNat bytes * 8.0) := (unsigned_ofNat bytes).mul hbyte
    exact hbits.div_of_isFinite (isFinite_bits h) (isPositive_of_zero_lt hseconds)
  · exact unsigned_zero

theorem unsigned_percentage (part : Nat) {whole : Nat} (h : whole ≤ maxWord) :
    Unsigned (Metrics.percentage part whole) := by
  unfold Metrics.percentage
  split
  · rename_i hpos
    have hhundred : IsPositiveFinite (100.0 : Float).toModel.unpack := by decide +kernel
    exact ((unsigned_ofNat part).div (isPositiveFinite_ofNat hpos h)).mul hhundred
  · exact unsigned_zero

theorem unsigned_averagePerFlow (packets : Nat) {flows : Nat} (h : flows ≤ maxWord) :
    Unsigned (Metrics.averagePerFlow packets flows) := by
  unfold Metrics.averagePerFlow
  split
  · rename_i hpos
    exact (unsigned_ofNat packets).div (isPositiveFinite_ofNat hpos h)
  · exact unsigned_zero

/-! ## Reports -/

namespace Report

variable {r : Report}

theorem unsigned_totalKb (r : Report) : Unsigned r.totalKb := by
  have hunit : IsPositiveFinite (1024.0 : Float).toModel.unpack := by decide +kernel
  exact (unsigned_ofNat r.totalBytes).div hunit

theorem unsigned_throughputMbps (h : Unsigned r.throughputBps) : Unsigned r.throughputMbps := by
  have hunit : IsPositiveFinite (1000000.0 : Float).toModel.unpack := by decide +kernel
  exact h.div hunit

/-- The figures that come from times and bytes. -/
theorem Derived.unsigned_of_totalBytes (h : r.Derived) (hbytes : r.totalBytes ≤ maxWord) :
    ∀ x ∈ [r.duration, r.throughputBps, r.totalKb, r.throughputMbps], Unsigned x := by
  have hduration : Unsigned r.duration := by
    rw [h.duration]
    exact unsigned_elapsed _ _
  have hthroughput : Unsigned r.throughputBps := by
    rw [h.throughputBps]
    exact unsigned_throughput hbytes r.duration
  simp only [List.forall_mem_cons, List.not_mem_nil, false_implies, implies_true, and_true]
  exact ⟨hduration, hthroughput, unsigned_totalKb r, unsigned_throughputMbps hthroughput⟩

/-- The figures that are quotients of two counts. -/
theorem Derived.unsigned_of_words (h : r.Derived) (hwords : r.Words)
    (hlines : r.parsedLines + r.failedLines ≤ maxWord) :
    ∀ x ∈ [r.successRate, r.retransmissionRate, r.avgPacketsPerFlow], Unsigned x := by
  have hsuccess : Unsigned r.successRate := by
    rw [h.successRate]
    exact unsigned_percentage r.parsedLines hlines
  have hretransmission : Unsigned r.retransmissionRate := by
    rw [h.retransmissionRate]
    exact unsigned_percentage r.retransmittedPackets hwords.totalPackets
  have haverage : Unsigned r.avgPacketsPerFlow := by
    rw [h.avgPacketsPerFlow]
    exact unsigned_averagePerFlow r.totalPackets hwords.uniqueFlows
  simp only [List.forall_mem_cons, List.not_mem_nil, false_implies, implies_true, and_true]
  exact ⟨hsuccess, hretransmission, haverage⟩

end Report

/-- **No figure of a trace is below zero, and each is a number.** Whatever the times of a trace are and however
    many bytes it has, its duration, its throughput and its bytes are numbers without a minus sign, in every unit.
    So are its shares and means, which are quotients of two counts, if the counts are words; those of fewer than
    2^64 lines are. -/
theorem figures_aggregate (lines : List Text) :
    let r := aggregate lines
    (∀ x ∈ [r.duration, r.throughputBps, r.totalKb, r.throughputMbps],
      x.isNaN = false ∧ 0.0 ≤ x ∧ Unsigned x) ∧
    (lines.length < 2 ^ 64 →
      ∀ x ∈ [r.successRate, r.retransmissionRate, r.avgPacketsPerFlow],
        x.isNaN = false ∧ 0.0 ≤ x ∧ Unsigned x) := by
  intro r
  have hrecords := Session.records_feedLines 10 1 lines
  have hbytes : r.totalBytes ≤ maxWord := hrecords.totalBytes.trans_le (min_le_right _ _)
  have hnumber {x : Float} (hx : Unsigned x) : x.isNaN = false ∧ 0.0 ≤ x ∧ Unsigned x :=
    ⟨hx.isNaN_eq_false, hx.zero_le, hx⟩
  constructor
  · intro x hx
    exact hnumber (hrecords.derived.unsigned_of_totalBytes hbytes x hx)
  · intro hlength x hx
    have hlines : lines.length ≤ maxWord := Nat.le_of_lt_succ hlength
    obtain ⟨hwords, hcounted⟩ := words_feedLines 10 hlines
    exact hnumber (hrecords.derived.unsigned_of_words hwords hcounted x hx)

/-- The bytes add up to more than a word and the last time is infinite, so the duration is infinite and the
    throughput is zero. -/
theorem figures_of_endless_trace :
    let first := "r 1.0 /NodeList/0/x length: 18446744073709551615 Seq=1".toList
    let last := "r ".toList ++ '1' :: List.replicate 309 '0' ++ ".0 /NodeList/0/x length: 60 Seq=1".toList
    let lines := [first, "neither blank nor an event".toList, last]
    let r := aggregate lines
    lines.length < 2 ^ 64 ∧ r.totalBytes = maxWord ∧ r.duration.isInf = true ∧ r.throughputBps = 0.0 ∧
      r.retransmissionRate = 50.0 ∧
      ∀ x ∈ [r.duration, r.throughputBps, r.totalKb, r.throughputMbps] ++
          [r.successRate, r.retransmissionRate, r.avgPacketsPerFlow],
        x.isNaN = false ∧ 0.0 ≤ x ∧ Unsigned x := by
  intro first last lines r
  have hlength : lines.length < 2 ^ 64 := by decide
  obtain ⟨hrates, hshares⟩ := figures_aggregate lines
  refine ⟨hlength, by decide +kernel, by decide +kernel, by decide +kernel, by decide +kernel, ?_⟩
  intro x hx
  rcases List.mem_append.mp hx with hrate | hshare
  · exact hrates x hrate
  · exact hshares hlength x hshare

end PacketTrace

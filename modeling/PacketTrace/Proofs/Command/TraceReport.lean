import PacketTrace.Proofs.Command.Reload
import PacketTrace.Proofs.Json.FloatValue
import PacketTrace.Proofs.Report.Bounds

/-!
# `Proofs.Command.TraceReport` — the report of a trace, written and loaded

A time may have hundreds of digits and is infinite then, and so may be the span up to it and the throughput over
a very short span. JSON has no infinite numbers, so such a float is written as `null`. In the place of a time
`null` is a missing time; in the place of a figure it is refused. All else in the report of a trace survives
being written and loaded: its counts are words, its lists are lists of words and texts, and its other figures are
finite.

## Contents
- **Reports.** `Report.KeptBy`, and `rereadReport` on a report with finite or infinite figures.
- **Traces.** `reload_aggregateBytes`, for every trace.
-/

namespace PacketTrace

open Json.Reader

/-! ## Reports -/

/-- What is kept when a report is written and loaded: the counts, the lists, and which times there are, except
for infinite ones. -/
structure Report.KeptBy (written loaded : Report) : Prop where
  parsedLines : loaded.parsedLines = written.parsedLines
  failedLines : loaded.failedLines = written.failedLines
  eventTypes : loaded.eventTypes = written.eventTypes
  totalPackets : loaded.totalPackets = written.totalPackets
  retransmittedPackets : loaded.retransmittedPackets = written.retransmittedPackets
  totalBytes : loaded.totalBytes = written.totalBytes
  startTime : loaded.startTime.isSome = written.startTime.any Float.isFinite
  endTime : loaded.endTime.isSome = written.endTime.any Float.isFinite
  packetTypes : loaded.packetTypes = written.packetTypes
  uniqueFlows : loaded.uniqueFlows = written.uniqueFlows
  syntheticSeqs : loaded.syntheticSeqs = written.syntheticSeqs
  problemLines : loaded.problemLines = written.problemLines

/-- A time can be read whatever it is, but an infinite one is lost. -/
theorem exists_rereadTime (time : Option Float) :
    ∃ t, rereadTime time = .ok t ∧ t.isSome = time.any Float.isFinite := by
  cases time with
  | none => exact ⟨none, rfl, rfl⟩
  | some x =>
    rw [rereadTime, Option.any_some]
    by_cases hx : x.isFinite = true
    · obtain ⟨y, hy⟩ := exists_reread hx
      rw [if_pos hx, hy]
      exact ⟨some y, rfl, hx.symm⟩
    · rw [if_neg hx]
      exact ⟨none, rfl, (Bool.eq_false_iff.mpr hx).symm⟩

namespace SavedReport

variable {r : Report}

/-- With finite figures a report can be read. -/
theorem exists_rereadReport (hsuccess : r.successRate.isFinite = true)
    (hretransmission : r.retransmissionRate.isFinite = true) (hduration : r.duration.isFinite = true)
    (hthroughput : r.throughputBps.isFinite = true) (haverage : r.avgPacketsPerFlow.isFinite = true) :
    ∃ loaded, rereadReport r = .ok loaded ∧ r.KeptBy loaded := by
  obtain ⟨success, hsuccess⟩ := exists_reread hsuccess
  obtain ⟨retransmission, hretransmission⟩ := exists_reread hretransmission
  obtain ⟨start, hstart, hstart'⟩ := exists_rereadTime r.startTime
  obtain ⟨latest, hlatest, hlatest'⟩ := exists_rereadTime r.endTime
  obtain ⟨duration, hduration⟩ := exists_reread hduration
  obtain ⟨throughput, hthroughput⟩ := exists_reread hthroughput
  obtain ⟨average, haverage⟩ := exists_reread haverage
  unfold rereadReport
  rw [hsuccess, hretransmission, hstart, hlatest, hduration, hthroughput, haverage]
  exact ⟨_, rfl, rfl, rfl, rfl, rfl, rfl, rfl, hstart', hlatest', rfl, rfl, rfl, rfl⟩

/-- With an infinite figure it is refused. -/
theorem rereadReport_of_infinite (hsuccess : r.successRate.isFinite = true)
    (hretransmission : r.retransmissionRate.isFinite = true)
    (h : ¬ (r.duration.isFinite = true ∧ r.throughputBps.isFinite = true)) :
    rereadReport r = .error .badContent := by
  obtain ⟨success, hsuccess⟩ := exists_reread hsuccess
  obtain ⟨retransmission, hretransmission⟩ := exists_reread hretransmission
  obtain ⟨start, hstart, -⟩ := exists_rereadTime r.startTime
  obtain ⟨latest, hlatest, -⟩ := exists_rereadTime r.endTime
  unfold rereadReport
  rw [hsuccess, hretransmission, hstart, hlatest]
  by_cases hduration : r.duration.isFinite = true
  · obtain ⟨duration, hduration'⟩ := exists_reread hduration
    rw [hduration', reread_of_not_finite fun hthroughput => h ⟨hduration, hthroughput⟩]
    rfl
  · rw [reread_of_not_finite hduration]
    rfl

end SavedReport

/-! ## Traces -/

/-- **The report of a trace, written and loaded.** Whatever the bytes of the trace are, the report is accepted if
its duration and its throughput are finite, and then everything is kept but infinite times; otherwise it is
refused. -/
theorem reload_aggregateBytes {bytes : Bytes} (hsize : bytes.length ≤ maxWord) (samples : Nat)
    (header : ReportHeader) :
    let r := aggregateBytes bytes samples
    let saved := SavedReport.ofReport header r
    (r.duration.isFinite = true ∧ r.throughputBps.isFinite = true →
      ∃ loaded, r.KeptBy loaded ∧ SavedReport.ofBytes saved.bytes = .ok { saved with report := loaded } ∧
        ∀ (p : Path) (t u : FileTree), (writeJson r header p : OnTree _).run t = (.ok (), u) →
          (loadJson p : OnTree _).run u = (.ok { saved with report := loaded }, u)) ∧
    (¬ (r.duration.isFinite = true ∧ r.throughputBps.isFinite = true) →
      SavedReport.ofBytes saved.bytes = .error (.malformed .badContent) ∧
        ∀ (p : Path) (t u : FileTree), (writeJson r header p : OnTree _).run t = (.ok (), u) →
          (loadJson p : OnTree _).run u = (.error (.malformed .badContent), u)) := by
  intro r saved
  obtain ⟨hwords, htotal⟩ := words_aggregateBytes hsize samples
  have hsuccess : r.successRate.isFinite = true := isFinite_percentage hwords.parsedLines htotal
  have hretransmission : r.retransmissionRate.isFinite = true :=
    isFinite_percentage hwords.retransmittedPackets hwords.totalPackets
  have haverage : r.avgPacketsPerFlow.isFinite = true :=
    isFinite_averagePerFlow hwords.totalPackets hwords.uniqueFlows
  have hbytes : SavedReport.ofBytes saved.bytes =
      (SavedReport.rereadReport r).mapError SavedReport.LoadError.malformed >>= fun loaded =>
        .ok { saved with report := loaded } := SavedReport.ofBytes_bytes saved hwords
  constructor
  · rintro ⟨hduration, hthroughput⟩
    obtain ⟨loaded, hreread, hkept⟩ :=
      SavedReport.exists_rereadReport hsuccess hretransmission hduration hthroughput haverage
    rw [hreread] at hbytes
    refine ⟨loaded, hkept, hbytes, fun p t u hwrite => ?_⟩
    rw [loadJson_run (read_of_writeJson hwrite), hbytes]
    rfl
  · intro hinfinite
    rw [SavedReport.rereadReport_of_infinite hsuccess hretransmission hinfinite] at hbytes
    refine ⟨hbytes, fun p t u hwrite => ?_⟩
    rw [loadJson_run (read_of_writeJson hwrite), hbytes]
    rfl

/-- A trace with three lines, one of which is no event, is written and loaded. -/
theorem sampleTrace_reloaded :
    let bytes := Utf8.encode
      "r 1.0 /NodeList/0/x length: 536 Seq=1\nr 2.5 /NodeList/0/x length: 536 Seq=2\nnonsense here\n".toList
    let r := aggregateBytes bytes
    let saved := SavedReport.ofReport { inputFile := "a.tr".toList, generatedAt := "now".toList } r
    r.parsedLines = 2 ∧ r.failedLines = 1 ∧ r.startTime.any Float.isFinite = true ∧
      ∃ loaded, r.KeptBy loaded ∧
        SavedReport.ofBytes saved.bytes = .ok { saved with report := loaded } := by
  intro bytes r saved
  refine ⟨by decide +kernel, by decide +kernel, by decide +kernel, ?_⟩
  have hsize : bytes.length ≤ maxWord := by decide +kernel
  have hfinite : r.duration.isFinite = true ∧ r.throughputBps.isFinite = true := by decide +kernel
  obtain ⟨loaded, hkept, hloaded, -⟩ := (reload_aggregateBytes hsize 10 _).1 hfinite
  exact ⟨loaded, hkept, hloaded⟩

/-- An infinite time is lost, and after a finite one it makes the duration infinite, so that the report is
refused. -/
theorem infinite_times_do_not_survive :
    let digits := '1' :: List.replicate 309 '0'
    let infinite := "r ".toList ++ digits ++ ".0 /NodeList/0/x length: 536 Seq=1\n".toList
    let finite := "r 1.0 /NodeList/0/x length: 536 Seq=1\n".toList
    let written (trace : Text) :=
      SavedReport.ofReport { inputFile := [], generatedAt := [] } (aggregateBytes (Utf8.encode trace))
    (written infinite).report.startTime.isSome = true ∧ (written infinite).report.endTime.isSome = true ∧
      (SavedReport.ofBytes (written infinite).bytes).map (fun saved =>
        (saved.report.startTime.isSome, saved.report.endTime.isSome)) = .ok (false, false) ∧
      (SavedReport.ofBytes (written (finite ++ infinite)).bytes).map (fun _ => ()) =
        .error (.malformed .badContent) := by
  decide +kernel

end PacketTrace

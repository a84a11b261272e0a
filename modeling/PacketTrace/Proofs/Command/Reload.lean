import PacketTrace.Proofs.Command.Output
import PacketTrace.Proofs.Report.Document

/-!
# `Proofs.Command.Reload` — a report that was written in JSON can be loaded

Writing a report and loading it are inverse to each other, but for the floats: a reader rounds twice where a
writer has rounded once, so a float may come back as one of its neighbours. If every float of a report comes
back as it was, then so does the report (`loadJson_writeJson`).

## Contents
- **Floats.** `Report.floats`, and `rereadReport` for a report whose floats all read back.
- **Files.** `read_of_writeJson` and `loadJson_run`: what is written is what a reader finds.
- **Reports.** `loadJson_writeJson`.
-/

namespace PacketTrace

open Json.Reader

/-! ## Floats -/

/-- All floats of a report. -/
def Report.floats (r : Report) : List Float :=
  [r.successRate, r.retransmissionRate] ++ r.startTime.toList ++ r.endTime.toList ++
    [r.duration, r.throughputBps, r.avgPacketsPerFlow]

/-- A float that reads back is finite. -/
theorem isFinite_of_reread {x : Float} (h : reread x = .ok x) : x.isFinite = true := by
  by_contra hnot
  rw [reread_of_not_finite hnot] at h
  cases h

/-- A time reads back if it is missing or its float reads back. -/
theorem rereadTime_of_reread {time : Option Float} (h : ∀ x ∈ time, reread x = .ok x) :
    rereadTime time = .ok time := by
  cases time with
  | none => rfl
  | some x =>
    have hx := h x rfl
    rw [rereadTime, if_pos (isFinite_of_reread hx), hx]
    rfl

/-- A report whose floats all read back is read as it was written. -/
theorem SavedReport.rereadReport_of_reread {r : Report} (h : ∀ x ∈ r.floats, reread x = .ok x) :
    rereadReport r = .ok r := by
  unfold Report.floats at h
  simp only [List.forall_mem_append, List.forall_mem_cons, Option.mem_toList] at h
  obtain ⟨⟨⟨⟨hsuccess, hretransmission, -⟩, hstart⟩, hend⟩, hduration, hthroughput, haverage, -⟩ := h
  unfold rereadReport
  rw [hsuccess, hretransmission, rereadTime_of_reread hstart, rereadTime_of_reread hend, hduration,
    hthroughput, haverage]
  rfl

/-! ## Files -/

/-- The file of a report that was written holds the report. -/
theorem read_of_writeJson {r : Report} {header : ReportHeader} {p : Path} {t u : FileTree}
    (h : (writeJson r header p : OnTree _).run t = (.ok (), u)) :
    u.read p = .ok (SavedReport.ofReport header r).bytes :=
  (wrote_of_writeOutput h).read_self

/-- How a failure to load a file is reported. -/
def OutputError.ofLoadError : SavedReport.LoadError → OutputError
  | .malformed fault => .malformed fault
  | .unsupportedVersion version => .unsupportedVersion version

/-- What is loaded is what the file holds, and nothing is touched. -/
theorem loadJson_run {p : Path} {t : FileTree} {content : Bytes} (hread : t.read p = .ok content) :
    (loadJson p : OnTree _).run t =
      ((SavedReport.ofBytes content).mapError OutputError.ofLoadError, t) := by
  have hfile : (Disk.read p : OnTree _).run t = (.ok content, t) := by
    rw [← hread]
    rfl
  unfold loadJson
  rw [OnTree.run_bind hfile]
  dsimp only
  rcases SavedReport.ofBytes content with (fault | version) | saved
  · rfl
  · rfl
  · rfl

/-! ## Reports -/

/-- **A report survives being written and loaded.** Its counts are words and each of its floats reads back;
nothing else matters, neither the characters of its texts nor whether it has times. The bytes that are
written give back the version, the header and the report, and so does any file they are written to. -/
theorem loadJson_writeJson {r : Report} (hwords : r.Words) (hfloats : ∀ x ∈ r.floats, reread x = .ok x)
    (header : ReportHeader) :
    let saved : SavedReport := { version := "1.0.0".toList, header, report := r }
    SavedReport.ofBytes (SavedReport.ofReport header r).bytes = .ok saved ∧
      ∀ (p : Path) (t u : FileTree), (writeJson r header p : OnTree _).run t = (.ok (), u) →
        (loadJson p : OnTree _).run u = (.ok saved, u) := by
  intro saved
  have hbytes : SavedReport.ofBytes (SavedReport.ofReport header r).bytes = .ok saved := by
    rw [SavedReport.ofBytes_bytes _ hwords]
    show (SavedReport.rereadReport r).mapError _ >>= _ = _
    rw [SavedReport.rereadReport_of_reread hfloats]
    rfl
  refine ⟨hbytes, fun p t u hwrite => ?_⟩
  rw [loadJson_run (read_of_writeJson hwrite), hbytes]
  rfl

/-- A report with figures that are no whole numbers, one of its two times, the largest count, and a text
with a quote, a control character and a character that takes four bytes. -/
def sampleReport : Report :=
  { parsedLines := 2, failedLines := 1, successRate := 66.66666666666666
    eventTypes := [(.receive, 2)], totalPackets := 2, retransmittedPackets := 0
    retransmissionRate := 0.0, totalBytes := maxWord, startTime := some 1.5, endTime := none
    duration := 0.1, throughputBps := 1e300, packetTypes := [(.packet .data, 2)], uniqueFlows := 2
    avgPacketsPerFlow := 1.0, syntheticSeqs := 0
    problemLines := [⟨3, "\"a\x01 line 😀".toList⟩] }

/-- The sample is written and loaded. -/
theorem sampleReport_reloaded :
    let header : ReportHeader := { inputFile := "\\é\n".toList, generatedAt := [] }
    let p : Path := "out/r.json".toList
    let written := (writeJson sampleReport header p : OnTree _).run {}
    written.1 = .ok () ∧
      (loadJson p : OnTree _).run written.2 =
        (.ok { version := "1.0.0".toList, header, report := sampleReport }, written.2) := by
  intro header p written
  have hwords : sampleReport.Words := by constructor <;> decide
  have hfloats : ∀ x ∈ sampleReport.floats, reread x = .ok x := by
    decide +kernel
  have hwritten : written.1 = .ok () := by decide +kernel
  refine ⟨hwritten, (loadJson_writeJson hwords hfloats header).2 p {} written.2 ?_⟩
  exact Prod.ext hwritten rfl

end PacketTrace

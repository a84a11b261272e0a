import PacketTrace.Proofs.Command.Analyze
import PacketTrace.Proofs.Text.Encoding

/-!
# `Proofs.Command.Delivery` — what a complete analysis delivers

A complete analysis gives the report on what the trace held before it, and the report in JSON is where it
was wanted. The text report was written first, so it is still there exactly if the other one went
elsewhere (`delivered_of_ok`).

Options are refused if the two paths have the same form, and that is not enough: `r` and `./r` differ in
form and lead to one place. Two paths lead to one file only if they lead to one place, since a `FileTree` has
no links.

## Contents
- **Formats.** No text report is a report in JSON (`encode_render_ne_bytes`).
- **Outputs.** `AnalyzeOptions.JsonOverText`, `AnalyzeOptions.Delivers` and `delivered_of_ok`.
-/

namespace PacketTrace

/-! ## Formats -/

/-- A text report begins with a letter and a document with a bracket. -/
theorem encode_render_ne_bytes (r : Report) (header : ReportHeader) (s : SavedReport) :
    Utf8.encode (r.render header) ≠ s.bytes := by
  intro h
  have htext : ∃ rest, r.render header = 'T' :: rest := ⟨_, rfl⟩
  have hdocument : ∃ rest, s.document 0 = '\x7b' :: rest := ⟨_, rfl⟩
  obtain ⟨rest, htext⟩ := htext
  obtain ⟨rest', hdocument⟩ := hdocument
  have hsame := congrArg Utf8.decode? h
  unfold SavedReport.bytes at hsame
  rw [Utf8.decode?_encode, Utf8.decode?_encode, htext, hdocument] at hsame
  exact absurd (List.cons.inj (Option.some.inj hsame)).1 (by decide)

/-! ## Outputs -/

/-- The report in JSON goes where the text report is, however the two paths are spelled. -/
def AnalyzeOptions.JsonOverText (o : AnalyzeOptions) : Prop :=
  ∃ p ∈ o.outputJson, p.destination = o.outputFile.destination

/-- The files of a complete analysis: the text report is kept unless the report in JSON replaces it. -/
structure AnalyzeOptions.Delivers (o : AnalyzeOptions) (now : Text) (t : FileTree) (r : Report)
    (u : FileTree) : Prop where
  report : ∃ content, t.read o.inputFile = .ok content ∧ r = aggregateBytes content o.maxProblemLines
  json : ∀ p ∈ o.outputJson, u.read p = .ok (SavedReport.ofReport (o.header now) r).bytes
  kept : ¬ o.JsonOverText → u.read o.outputFile = .ok (Utf8.encode (r.render (o.header now)))
  replaced : o.JsonOverText → u.read o.outputFile = .ok (SavedReport.ofReport (o.header now) r).bytes

theorem AnalyzeOptions.Stages.delivers {o : AnalyzeOptions} {now : Text} {t : FileTree} {r : Report}
    {ended : (Except AnalyzeError Report × Text) × FileTree} (h : o.Stages now t ended)
    (hok : ended.1.1 = .ok r) : o.Delivers now t r ended.2 := by
  cases h with
  | inputFailed hread => cases hok
  | textFailed hread htext => cases hok
  | jsonFailed hread htext hpath hjson => cases hok
  | @textOnly content u hread htext hnone =>
    cases hok
    have hnot : ¬ o.JsonOverText := by
      rintro ⟨p, hp, -⟩
      rw [hnone] at hp
      cases hp
    refine ⟨⟨content, hread, rfl⟩, ?_, fun _ => (wrote_of_writeOutput htext).read_self,
      fun hover => absurd hover hnot⟩
    intro p hp
    rw [hnone] at hp
    cases hp
  | @both content p v u hread htext hpath hjson =>
    cases hok
    have hpaths : ∀ q ∈ o.outputJson, q = p := by
      intro q hq
      rw [hpath] at hq
      exact (Option.some.inj hq).symm
    -- the second output leads to the place of the first, or leaves it alone
    have hread' := (wrote_of_writeOutput hjson).read (wrote_of_writeOutput htext).read_self
    refine ⟨⟨content, hread, rfl⟩, ?_, ?_, ?_⟩
    · intro q hq
      rw [hpaths q hq]
      exact (wrote_of_writeOutput hjson).read_self
    · intro hnot
      rw [if_neg fun hsame => hnot ⟨p, hpath, hsame⟩] at hread'
      exact hread'
    · rintro ⟨q, hq, hsame⟩
      rw [hpaths q hq] at hsame
      rw [if_pos hsame] at hread'
      exact hread'

/-- **What a complete analysis has delivered.** The report is that of the bytes that the trace held
    before, and the report in JSON is in its file if it was wanted. The text report is in its file exactly
    if the one in JSON does not go there; otherwise that one is in its place. -/
theorem delivered_of_ok {o : AnalyzeOptions} {now : Text} {t : FileTree} {r : Report}
    (h : ((analyze o now : OnTree _).run t).1.1 = .ok r) :
    let u := ((analyze o now : OnTree _).run t).2
    let text := Utf8.encode (r.render (o.header now))
    let json := (SavedReport.ofReport (o.header now) r).bytes
    (∃ content, t.read o.inputFile = .ok content ∧ r = aggregateBytes content o.maxProblemLines) ∧
      (∀ p ∈ o.outputJson, u.read p = .ok json) ∧
      (u.read o.outputFile = .ok text ↔ ¬ o.JsonOverText) ∧
      (u.read o.outputFile = .ok json ↔ o.JsonOverText) := by
  intro u text json
  have hdiffer : text ≠ json := encode_render_ne_bytes r (o.header now) _
  have hdelivers := (analyze_stages o now t).delivers h
  refine ⟨hdelivers.report, hdelivers.json, ⟨fun htext hover => ?_, hdelivers.kept⟩,
    fun hjson => ?_, hdelivers.replaced⟩
  · exact hdiffer (Except.ok.inj (htext.symm.trans (hdelivers.replaced hover)))
  · by_contra hnot
    exact hdiffer (Except.ok.inj ((hdelivers.kept hnot).symm.trans hjson))

/-- Both reports are there when the paths lead to different places. The report is on an event and on a line that
is none. -/
theorem both_reports_delivered :
    let o : AnalyzeOptions :=
      { inputFile := "trace".toList, outputFile := "out/r".toList, outputJson := some "r".toList }
    let ended := (analyze o [] : OnTree _).run sampleTree
    let r := aggregateBytes sampleContent 10
    r.parsedLines = 1 ∧ r.problemLines = [⟨2, "nonsense here".toList⟩] ∧ ended.1.1 = .ok r ∧
      ended.2.read "out/r".toList = .ok (Utf8.encode (r.render (o.header []))) ∧
      ended.2.read "r".toList = .ok (SavedReport.ofReport (o.header []) r).bytes := by
  intro o ended r
  have hok : ended.1.1 = .ok r := rfl
  obtain ⟨-, hjson, htext, -⟩ := delivered_of_ok hok
  refine ⟨by decide +kernel, by decide +kernel, hok, htext.mpr ?_, hjson _ rfl⟩
  rintro ⟨p, hp, hsame⟩
  cases hp
  exact absurd hsame (by decide)

/-- The check of the options lets through two spellings of one path, and then the text report is lost. -/
theorem accepted_options_lose_text_report :
    let o : AnalyzeOptions :=
      { inputFile := "trace".toList, outputFile := "r".toList, outputJson := some "./r".toList }
    let ended := (analyze o [] : OnTree _).run sampleTree
    let r := aggregateBytes sampleContent 10
    o.fault? = none ∧ ended.1.1 = .ok r ∧
      ended.2.read o.outputFile ≠ .ok (Utf8.encode (r.render (o.header []))) := by
  intro o ended r
  refine ⟨by decide, rfl, ?_⟩
  decide +kernel

end PacketTrace

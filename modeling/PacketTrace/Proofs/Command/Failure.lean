import PacketTrace.Proofs.Command.Analyze

/-!
# `Proofs.Command.Failure` — what a failed analysis leaves behind

An analysis that fails says nothing and cleans nothing up. What it has touched by then depends on the
stage that failed: nothing before the text report, directories for an output that failed, and the whole
text report once that was written (`AnalyzeOptions.Leaves`).

Directories are only ever made where the path of an output passes, and every file other than the text
report keeps its content, whatever the paths and the files are.

## Contents
- **Places.** `entry_of_writeOutputs` for two outputs, the second of which fails.
- **Failures.** `AnalyzeOptions.Leaves` and `printed_and_left_of_error`.
-/

namespace PacketTrace

/-! ## Places -/

/-- Beside the place of the first output, two outputs of which the second fails add directories at most,
    and only where their paths pass. -/
theorem entry_of_writeOutputs {p q : Path} {first second : Bytes} {t v u : FileTree} {e : OutputError}
    (hfirst : (writeOutput p first : OnTree _).run t = (.ok (), v))
    (hsecond : (writeOutput q second : OnTree _).run v = (.error e, u)) {place : Place}
    (hplace : place ≠ p.destination) :
    u.entry? place = t.entry? place ∨
      (p.Passes place ∨ q.Passes place) ∧ t.entry? place = none ∧
        u.entry? place = some .directory := by
  rcases addsWithin_of_writeOutput hsecond place with hu | ⟨hq, hv, hu⟩
  · rw [hu]
    exact (entry_of_writeOutput hfirst hplace).imp_right (And.imp_left .inl)
  · -- the second output made a directory here, so the first had left the place as it was
    rcases entry_of_writeOutput hfirst hplace with ht | ⟨-, -, hdirectory⟩
    · exact .inr ⟨.inr hq, ht.symm.trans hv, hu⟩
    · rw [hv] at hdirectory
      cases hdirectory

/-! ## Failures -/

/-- What an analysis leaves behind when it fails, by its failure. -/
def AnalyzeOptions.Leaves (o : AnalyzeOptions) (now : Text) (t : FileTree) :
    AnalyzeError → FileTree → Prop
  | .inputNotFound _, u | .inputNotOpened _, u | .inputNotRead _ _, u =>
    (∃ fault, t.read o.inputFile = .error fault) ∧ u = t
  | .textNotWritten _, u =>
    (∃ content, t.read o.inputFile = .ok content) ∧ t.AddsWithin o.outputFile.Passes u
  | .jsonNotWritten _, u => ∃ content p, t.read o.inputFile = .ok content ∧ o.outputJson = some p ∧
    u.read o.outputFile = .ok (o.textOutput now content).2 ∧
    ∀ place, place ≠ o.outputFile.destination → u.entry? place = t.entry? place ∨
      (o.outputFile.Passes place ∨ p.Passes place) ∧ t.entry? place = none ∧
        u.entry? place = some .directory

theorem AnalyzeOptions.leaves_ofReadFailure {o : AnalyzeOptions} (now : Text) {t : FileTree}
    {fault : ReadFailure} (hread : t.read o.inputFile = .error fault) :
    o.Leaves now t (.ofReadFailure o.inputFile fault) t := by
  cases fault with
  | reading e => exact ⟨⟨_, hread⟩, rfl⟩
  | opening e => cases e <;> exact ⟨⟨_, hread⟩, rfl⟩

/-- **A failed analysis prints nothing, and what it leaves behind depends on its failure.** If the input
    cannot be read, nothing was touched. If the text report cannot be written, no file has changed, and at
    most there are new directories where its path passes. If the report in JSON cannot be written, the
    text report is complete, and beside it there are at most new directories. -/
theorem printed_and_left_of_error {o : AnalyzeOptions} {now : Text} {t : FileTree} {e : AnalyzeError}
    (h : ((analyze o now : OnTree _).run t).1.1 = .error e) :
    ((analyze o now : OnTree _).run t).1.2 = [] ∧
      o.Leaves now t e ((analyze o now : OnTree _).run t).2 := by
  have hstages := analyze_stages o now t
  generalize (analyze o now : OnTree _).run t = ended at h hstages ⊢
  cases hstages with
  | inputFailed hread =>
    cases h
    exact ⟨rfl, AnalyzeOptions.leaves_ofReadFailure now hread⟩
  | @textFailed content _ _ hread htext =>
    cases h
    exact ⟨rfl, ⟨content, hread⟩, addsWithin_of_writeOutput htext⟩
  | textOnly hread htext hnone => cases h
  | @jsonFailed content p _ v u hread htext hpath hjson =>
    cases h
    have hwritten : v.read o.outputFile = .ok (o.textOutput now content).2 :=
      (wrote_of_writeOutput htext).read_self
    exact ⟨rfl, content, p, hread, hpath,
      (addsWithin_of_writeOutput hjson).addsDirectories.read hwritten,
      fun place hplace => entry_of_writeOutputs htext hjson hplace⟩
  | both hread htext hpath hjson => cases h

/-- The report in JSON cannot be written below the trace, which is no directory. The text report is there
    by then, with the directory above it. -/
theorem text_report_left_without_json :
    let o : AnalyzeOptions :=
      { inputFile := "trace".toList, outputFile := "out/r".toList, outputJson := some "trace/j".toList }
    let ended := (analyze o [] : OnTree _).run sampleTree
    let left := ended.2
    ended.1 = (.error (.jsonNotWritten (.fileFailed .notDirectory)), []) ∧
      left.read o.outputFile = .ok (o.textOutput [] sampleContent).2 ∧
      ∀ place, place ≠ ["out".toList, "r".toList] → left.entry? place ≠ sampleTree.entry? place →
        left.entry? place = some .directory := by
  intro o ended left
  have hfailed : ended.1.1 = .error (.jsonNotWritten (.fileFailed .notDirectory)) := by rfl
  obtain ⟨hprinted, content, p, hread, -, htext, hplaces⟩ := printed_and_left_of_error hfailed
  have hcontent : content = sampleContent := Except.ok.inj hread.symm
  rw [hcontent] at htext
  refine ⟨Prod.ext hfailed hprinted, htext, fun place hplace hchanged => ?_⟩
  have hdestination : o.outputFile.destination = ["out".toList, "r".toList] := by decide
  rcases hplaces place (hdestination ▸ hplace) with hsame | ⟨-, -, hdirectory⟩
  · exact absurd hsame hchanged
  · exact hdirectory

end PacketTrace

import PacketTrace.Command.Analyze
import PacketTrace.Proofs.Command.Output

/-!
# `Proofs.Command.Analyze` — what an analysis does to the files

An analysis goes from one output to the next until one fails (`AnalyzeOptions.Stages`). It ends in one of
four ways (`AnalyzeOptions.Ends`), and each says which outputs it has written. The content of a file
afterwards follows from where the outputs lead.

Options are checked before an analysis, but only by the form of the paths of the text report. An output
can therefore lead to the input, and then the trace is lost: `read_input_analyze_iff` is the exact
condition, among the trees that `FileTree` describes: regular files and directories without links.

## Contents
- **Outputs.** The contents of the two reports, and which of them an outcome leaves behind.
- **Stages.** `AnalyzeOptions.Stages` and `analyze_stages`, the text of the program told once.
- **Endings.** `AnalyzeOptions.Ends` and `analyze_ends`.
- **The input.** `AnalyzeOptions.Ends.read_input` and the condition under which it is kept.
-/

namespace PacketTrace

/-! ## Outputs -/

namespace AnalyzeOptions

/-- The report on a trace with this content. -/
def report (o : AnalyzeOptions) (content : Bytes) : Report := aggregateBytes content o.maxProblemLines

/-- The header of the reports of an analysis at the given time. -/
def header (o : AnalyzeOptions) (now : Text) : ReportHeader :=
  { inputFile := o.inputFile, generatedAt := now }

/-- The text report, where it goes and what it holds. -/
def textOutput (o : AnalyzeOptions) (now : Text) (content : Bytes) : Path × Bytes :=
  (o.outputFile, Utf8.encode ((o.report content).render (o.header now)))

/-- The report in JSON, if it is wanted. -/
def jsonOutput? (o : AnalyzeOptions) (now : Text) (content : Bytes) : Option (Path × Bytes) :=
  o.outputJson.map fun p => (p, (SavedReport.ofReport (o.header now) (o.report content)).bytes)

/-- The outputs that an analysis has written when it ends with this outcome, in order. -/
def outputs (o : AnalyzeOptions) (now : Text) (content : Bytes) :
    Except AnalyzeError Report → List (Path × Bytes)
  | .ok _ => o.textOutput now content :: (o.jsonOutput? now content).toList
  | .error (.jsonNotWritten _) => [o.textOutput now content]
  | .error _ => []

end AnalyzeOptions

/-- The failure of an analysis whose input cannot be read. -/
def AnalyzeError.ofReadFailure (p : Path) : ReadFailure → AnalyzeError
  | .opening .notFound => .inputNotFound p
  | .opening e => .inputNotOpened e
  | .reading e => .inputNotRead p e

/-! ## Stages -/

/-- The steps of an analysis up to its end: which outputs were tried, in which tree, and how each ended. -/
inductive AnalyzeOptions.Stages (o : AnalyzeOptions) (now : Text) (t : FileTree) :
    (Except AnalyzeError Report × Text) × FileTree → Prop
  | inputFailed {e : ReadFailure} (hread : t.read o.inputFile = .error e) :
      Stages o now t ((.error (.ofReadFailure o.inputFile e), []), t)
  | textFailed {content : Bytes} {e : OutputError} {u : FileTree}
      (hread : t.read o.inputFile = .ok content)
      (htext : (writeText (o.report content) (o.header now) o.outputFile : OnTree _).run t =
        (.error e, u)) :
      Stages o now t ((.error (.textNotWritten e), []), u)
  | textOnly {content : Bytes} {u : FileTree} (hread : t.read o.inputFile = .ok content)
      (htext : (writeText (o.report content) (o.header now) o.outputFile : OnTree _).run t = (.ok (), u))
      (hnone : o.outputJson = none) :
      Stages o now t
        ((.ok (o.report content), completionText o (o.header now) (o.report content)), u)
  | jsonFailed {content : Bytes} {p : Path} {e : OutputError} {v u : FileTree}
      (hread : t.read o.inputFile = .ok content)
      (htext : (writeText (o.report content) (o.header now) o.outputFile : OnTree _).run t = (.ok (), v))
      (hpath : o.outputJson = some p)
      (hjson : (writeJson (o.report content) (o.header now) p : OnTree _).run v = (.error e, u)) :
      Stages o now t ((.error (.jsonNotWritten e), []), u)
  | both {content : Bytes} {p : Path} {v u : FileTree} (hread : t.read o.inputFile = .ok content)
      (htext : (writeText (o.report content) (o.header now) o.outputFile : OnTree _).run t = (.ok (), v))
      (hpath : o.outputJson = some p)
      (hjson : (writeJson (o.report content) (o.header now) p : OnTree _).run v = (.ok (), u)) :
      Stages o now t
        ((.ok (o.report content), completionText o (o.header now) (o.report content)), u)

theorem analyzeFile_run (p : Path) (samples : Nat) (t : FileTree) :
    (analyzeFile p samples : OnTree _).run t =
      (match t.read p with
        | .ok content => .ok (aggregateBytes content samples)
        | .error e => .error (.ofReadFailure p e), t) := by
  have hread : (Disk.read p : OnTree _).run t = (t.read p, t) := rfl
  unfold analyzeFile
  rw [OnTree.run_bind hread]
  cases t.read p with
  | ok content => rfl
  | error e =>
    cases e with
    | reading e => rfl
    | opening e => cases e <;> rfl

/-- **Every analysis goes through these stages.** -/
theorem analyze_stages (o : AnalyzeOptions) (now : Text) (t : FileTree) :
    o.Stages now t ((analyze o now : OnTree _).run t) := by
  have hfile := analyzeFile_run o.inputFile o.maxProblemLines t
  unfold analyze
  rw [OnTree.run_bind hfile]
  cases hread : t.read o.inputFile with
  | error e => exact .inputFailed hread
  | ok content =>
    dsimp only
    -- the trace was read, so the text report comes next
    rcases htext : (writeText (aggregateBytes content o.maxProblemLines)
      { inputFile := o.inputFile, generatedAt := now } o.outputFile : OnTree _).run t with ⟨outcome, v⟩
    rw [OnTree.run_bind htext]
    cases outcome with
    | error e => exact .textFailed hread htext
    | ok _ =>
      dsimp only
      cases hpath : o.outputJson with
      | none => exact .textOnly hread htext hpath
      | some p =>
        dsimp only
        rcases hjson : (writeJson (aggregateBytes content o.maxProblemLines)
          { inputFile := o.inputFile, generatedAt := now } p : OnTree _).run v with ⟨outcome, u⟩
        rw [OnTree.run_bind hjson]
        cases outcome with
        | error e => exact .jsonFailed hread htext hpath hjson
        | ok _ => exact .both hread htext hpath hjson

/-! ## Endings -/

/-- How an analysis can end: with a result, something printed and a tree. -/
inductive AnalyzeOptions.Ends (o : AnalyzeOptions) (now : Text) (t : FileTree) :
    (Except AnalyzeError Report × Text) × FileTree → Prop
  /-- The input cannot be read, and nothing was touched. -/
  | inputFailed {e : ReadFailure} (hread : t.read o.inputFile = .error e) :
      Ends o now t ((.error (.ofReadFailure o.inputFile e), []), t)
  | textFailed {content : Bytes} {e : OutputError} {u : FileTree}
      (hread : t.read o.inputFile = .ok content) (hwrote : t.WroteAll [] u) :
      Ends o now t ((.error (.textNotWritten e), []), u)
  | jsonFailed {content : Bytes} {e : OutputError} {u : FileTree}
      (hread : t.read o.inputFile = .ok content) (hwrote : t.WroteAll [o.textOutput now content] u) :
      Ends o now t ((.error (.jsonNotWritten e), []), u)
  | complete {content : Bytes} {u : FileTree} (hread : t.read o.inputFile = .ok content)
      (hwrote : t.WroteAll (o.textOutput now content :: (o.jsonOutput? now content).toList) u) :
      Ends o now t
        ((.ok (o.report content), completionText o (o.header now) (o.report content)), u)

/-- The stages of an analysis tell what it has written. -/
theorem AnalyzeOptions.Stages.ends {o : AnalyzeOptions} {now : Text} {t : FileTree}
    {ended : (Except AnalyzeError Report × Text) × FileTree} (h : o.Stages now t ended) :
    o.Ends now t ended := by
  cases h with
  | inputFailed hread => exact .inputFailed hread
  | textFailed hread htext =>
    exact .textFailed hread (addsWithin_of_writeOutput htext).addsDirectories
  | @textOnly content u hread htext hnone =>
    refine .complete hread ?_
    unfold jsonOutput?
    rw [hnone]
    exact ⟨u, wrote_of_writeOutput htext, .refl u⟩
  | @jsonFailed content p e v u hread htext hpath hjson =>
    exact .jsonFailed hread
      ⟨v, wrote_of_writeOutput htext, (addsWithin_of_writeOutput hjson).addsDirectories⟩
  | @both content p v u hread htext hpath hjson =>
    refine .complete hread ?_
    unfold jsonOutput?
    rw [hpath]
    exact ⟨v, wrote_of_writeOutput htext, u, wrote_of_writeOutput hjson, .refl u⟩

/-- **How an analysis ends.** -/
theorem analyze_ends (o : AnalyzeOptions) (now : Text) (t : FileTree) :
    o.Ends now t ((analyze o now : OnTree _).run t) :=
  (analyze_stages o now t).ends

/-! ## The input -/

/-- What an analysis puts in place of its input when it ends so: the last output that leads there. -/
def AnalyzeOptions.overInput? (o : AnalyzeOptions) (now : Text) (content : Bytes)
    (outcome : Except AnalyzeError Report) : Option Bytes :=
  lastAt? o.inputFile.destination (o.outputs now content outcome)

/-- **What has become of the input.** It holds what was put in its place, or what it held. -/
theorem AnalyzeOptions.Ends.read_input {o : AnalyzeOptions} {now : Text} {t : FileTree}
    {ended : (Except AnalyzeError Report × Text) × FileTree} (h : o.Ends now t ended) :
    ended.2.read o.inputFile = (t.read o.inputFile).map fun content =>
      (o.overInput? now content ended.1.1).getD content := by
  cases h with
  | inputFailed hread =>
    show t.read o.inputFile = _
    rw [hread]
    rfl
  | textFailed hread hwrote =>
    rw [hread]
    exact hwrote.read hread
  | jsonFailed hread hwrote =>
    rw [hread]
    exact hwrote.read hread
  | complete hread hwrote =>
    rw [hread]
    exact hwrote.read hread

/-- **When an analysis keeps its input.** Whatever the options and the files, and however it ends, the
    input reads as before exactly if nothing was put in its place that differs from it. Only where the
    outputs lead counts (`Path.destination`), not how their paths are spelled. -/
theorem read_input_analyze_iff (o : AnalyzeOptions) (now : Text) (t : FileTree) :
    let ended := (analyze o now : OnTree _).run t
    ended.2.read o.inputFile = t.read o.inputFile ↔
      ∀ content, t.read o.inputFile = .ok content →
        ∀ bytes, o.overInput? now content ended.1.1 = some bytes → bytes = content := by
  intro ended
  rw [(analyze_ends o now t).read_input]
  cases t.read o.inputFile with
  | error e =>
    constructor
    · intro _ content hread
      cases hread
    · exact fun _ => rfl
  | ok content =>
    constructor
    · intro hkept content' hread bytes hbytes
      cases hread
      change Except.ok ((o.overInput? now content ended.1.1).getD content) = _ at hkept
      rw [hbytes] at hkept
      exact Except.ok.inj hkept
    · intro hsame
      show Except.ok ((o.overInput? now content ended.1.1).getD content) = _
      cases hbytes : o.overInput? now content ended.1.1 with
      | none => rfl
      | some bytes => exact congrArg Except.ok (hsame content rfl bytes hbytes)

/-- A trace of an event and of a line that is none. -/
def sampleContent : Bytes := Utf8.encode "r 1.5 /NodeList/0/x length: 536 Seq=1\nnonsense here\n".toList

/-- A tree with nothing but this trace. -/
def sampleTree : FileTree := ⟨[(["trace".toList], .regular sampleContent)]⟩

/-- The check of the options lets through a JSON report that leads to the input, and another spelling of
    the input as the path of the text report. Both put an end to the trace. -/
theorem accepted_options_lose_input :
    let json : AnalyzeOptions := { inputFile := "trace".toList, outputJson := some "trace".toList }
    let spelled : AnalyzeOptions := { inputFile := "trace".toList, outputFile := "./trace".toList }
    (json.fault? = none ∧ sampleTree.read json.inputFile = .ok sampleContent ∧
      ((analyze json [] : OnTree _).run sampleTree).2.read json.inputFile ≠ .ok sampleContent) ∧
    (spelled.fault? = none ∧ sampleTree.read spelled.inputFile = .ok sampleContent ∧
      ((analyze spelled [] : OnTree _).run sampleTree).2.read spelled.inputFile ≠ .ok sampleContent) := by
  decide +kernel

end PacketTrace

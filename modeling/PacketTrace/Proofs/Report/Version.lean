import Mathlib.Data.List.Basic
import PacketTrace.Proofs.Report.Document

/-!
# `Proofs.Report.Version` — when a version is found to be unsupported

The version of a document is looked at last. A document in a version that is not supported is therefore refused for
its version only if nothing else is wrong with it: each member can be read, and all that belongs to a saved report
is there, in the form of this version. A document of another form, as another version may have it, is refused for
its form. Both hold for any object of JSON, in any layout, and what is no object is refused for its form as well, so
`unsupportedVersion_iff` says what becomes of any content.

## Contents
- **Drafts.** `Adds`: what a list of parts adds to what is known.
- **Complete documents.** `Complete`, and `judge_eq_unsupportedVersion_iff` for the end of a document.
- **Versions.** `unsupportedVersion_iff`, and the least document of another version.
-/

namespace PacketTrace
namespace SavedReport

open Json Json.Reader Utf8

/-! ## Drafts -/

namespace Part

def version? : Part → Option Text
  | version v => some v
  | report _ => none
  | other _ _ => none

def report? : Part → Option Report
  | version _ => none
  | report r => some r
  | other _ _ => none

/-- A member that does not belong to the format, with what is kept of it. -/
def other? : Part → Option (Text × Option Text)
  | version _ => none
  | report _ => none
  | other name value => some (name, value)

end Part

/-- What is known with one more part, unless it is given twice. -/
def addPart? (draft : Draft) : Part → Option Draft
  | .version v => if draft.version.isSome then none else some { draft with version := some v }
  | .report r => if draft.report.isSome then none else some { draft with report := some r }
  | .other name value => some { draft with others := draft.others ++ [(name, value)] }

/-- Parts turn one draft into another: the second draft has what the first one had and the parts, of versions
and reports one at most. -/
@[mk_iff]
structure Adds (draft : Draft) (parts : List Part) (result : Draft) : Prop where
  version : draft.version.toList ++ parts.filterMap Part.version? = result.version.toList
  report : draft.report.toList ++ parts.filterMap Part.report? = result.report.toList
  others : draft.others ++ parts.filterMap Part.other? = result.others

theorem toList_inj {α : Type} {a b : Option α} (h : a.toList = b.toList) : a = b := by
  cases a with
  | none => cases b <;> simp_all
  | some x => cases b <;> simp_all

theorem adds_nil_iff {draft result : Draft} : Adds draft [] result ↔ draft = result := by
  obtain ⟨version, report, others⟩ := draft
  obtain ⟨version', report', others'⟩ := result
  constructor
  · intro h
    obtain ⟨hversion, hreport, hothers⟩ := h
    simp only [List.filterMap_nil, List.append_nil] at hversion hreport hothers
    rw [toList_inj hversion, toList_inj hreport, hothers]
  · intro h
    cases h
    constructor <;> simp

/-- The first part is added, and then the others. -/
theorem adds_cons_iff {draft result : Draft} {part : Part} {parts : List Part} :
    Adds draft (part :: parts) result ↔ ∃ next, addPart? draft part = some next ∧ Adds next parts result := by
  cases part with
  | version v =>
    have hversion : (Part.version v :: parts).filterMap Part.version? = v :: parts.filterMap Part.version? := rfl
    have hreport : (Part.version v :: parts).filterMap Part.report? = parts.filterMap Part.report? := rfl
    have hothers : (Part.version v :: parts).filterMap Part.other? = parts.filterMap Part.other? := rfl
    rw [adds_iff, hversion, hreport, hothers, addPart?]
    cases draft.version with
    | none => simp [adds_iff]
    | some w => cases result.version <;> simp
  | report r =>
    have hversion : (Part.report r :: parts).filterMap Part.version? = parts.filterMap Part.version? := rfl
    have hreport : (Part.report r :: parts).filterMap Part.report? = r :: parts.filterMap Part.report? := rfl
    have hothers : (Part.report r :: parts).filterMap Part.other? = parts.filterMap Part.other? := rfl
    rw [adds_iff, hversion, hreport, hothers, addPart?]
    cases draft.report with
    | none => simp [adds_iff]
    | some q => cases result.report <;> simp
  | other name value =>
    have hversion : (Part.other name value :: parts).filterMap Part.version? =
        parts.filterMap Part.version? := rfl
    have hreport : (Part.other name value :: parts).filterMap Part.report? = parts.filterMap Part.report? := rfl
    have hothers : (Part.other name value :: parts).filterMap Part.other? =
        (name, value) :: parts.filterMap Part.other? := rfl
    rw [adds_iff, hversion, hreport, hothers, addPart?]
    simp [adds_iff]

/-- **The parts of a document are added one by one.** -/
theorem foldlM_addPart?_eq_some_iff {parts : List Part} {draft result : Draft} :
    parts.foldlM addPart? draft = some result ↔ Adds draft parts result := by
  induction parts generalizing draft with
  | nil =>
    rw [adds_nil_iff]
    exact ⟨Option.some.inj, congrArg some⟩
  | cons part parts ih =>
    rw [List.foldlM_cons, adds_cons_iff]
    simp only [← ih]
    exact Option.bind_eq_some_iff

/-- A member that can be read adds its part. -/
theorem add_of_partOf {m : Member} {part : Part} (h : partOf m = .ok part) (draft : Draft) :
    add draft m = (addPart? draft part).elim (.error .badContent) .ok := by
  obtain ⟨name, hname, h⟩ := bind_eq_ok.mp h
  unfold add
  rw [hname]
  simp only [bind, Except.bind]
  split at h
  · rename_i hversion
    obtain ⟨v, hv, h⟩ := bind_eq_ok.mp h
    cases h
    rw [if_pos hversion, hv, addPart?]
    cases draft.version <;> rfl
  split at h
  · rename_i hversion hreport
    obtain ⟨r, hr, h⟩ := bind_eq_ok.mp h
    cases h
    rw [if_neg hversion, if_pos hreport, hr, addPart?]
    cases draft.report <;> rfl
  · rename_i hversion hreport
    obtain ⟨value, hvalue, h⟩ := bind_eq_ok.mp h
    cases h
    rw [if_neg hversion, if_neg hreport, hvalue]
    rfl

theorem exists_partOf_of_add {m : Member} {draft next : Draft} (h : add draft m = .ok next) :
    ∃ part, partOf m = .ok part := by
  obtain ⟨name, hname, h⟩ := bind_eq_ok.mp h
  by_cases hversion : name = "version".toList
  · rw [if_pos hversion] at h
    cases hdraft : draft.version.isSome with
    | true =>
      rw [hdraft] at h
      cases h
    | false =>
      rw [hdraft] at h
      obtain ⟨v, hv, -⟩ := bind_eq_ok.mp h
      refine ⟨.version v, bind_eq_ok.mpr ⟨name, hname, ?_⟩⟩
      rw [if_pos hversion]
      exact bind_eq_ok.mpr ⟨v, hv, rfl⟩
  rw [if_neg hversion] at h
  by_cases hreport : name = "report".toList
  · rw [if_pos hreport] at h
    cases hdraft : draft.report.isSome with
    | true =>
      rw [hdraft] at h
      cases h
    | false =>
      rw [hdraft] at h
      obtain ⟨r, hr, -⟩ := bind_eq_ok.mp h
      refine ⟨.report r, bind_eq_ok.mpr ⟨name, hname, ?_⟩⟩
      rw [if_neg hversion, if_pos hreport]
      exact bind_eq_ok.mpr ⟨r, hr, rfl⟩
  · rw [if_neg hreport] at h
    obtain ⟨value, hvalue, -⟩ := bind_eq_ok.mp h
    refine ⟨.other name value, bind_eq_ok.mpr ⟨name, hname, ?_⟩⟩
    rw [if_neg hversion, if_neg hreport]
    exact bind_eq_ok.mpr ⟨value, hvalue, rfl⟩

/-- If each member can be read, there is no fault but what is given twice. -/
theorem foldlM_add_of_mapM {members : List Member} {parts : List Part} (h : members.mapM partOf = .ok parts)
    (draft : Draft) :
    members.foldlM add draft = (parts.foldlM addPart? draft).elim (.error .badContent) .ok := by
  induction members generalizing parts draft with
  | nil =>
    cases h
    rfl
  | cons m members ih =>
    rw [List.mapM_cons] at h
    obtain ⟨part, hpart, h⟩ := bind_eq_ok.mp h
    obtain ⟨others, hothers, h⟩ := bind_eq_ok.mp h
    cases h
    rw [List.foldlM_cons, List.foldlM_cons, add_of_partOf hpart]
    cases addPart? draft part with
    | none => rfl
    | some next => exact ih hothers next

theorem exists_parts_of_foldlM {members : List Member} {draft result : Draft}
    (h : members.foldlM add draft = .ok result) : ∃ parts, members.mapM partOf = .ok parts := by
  induction members generalizing draft with
  | nil => exact ⟨[], rfl⟩
  | cons m members ih =>
    rw [List.foldlM_cons] at h
    obtain ⟨next, hnext, h⟩ := bind_eq_ok.mp h
    obtain ⟨part, hpart⟩ := exists_partOf_of_add hnext
    obtain ⟨parts, hparts⟩ := ih h
    rw [List.mapM_cons, hpart]
    refine ⟨part :: parts, ?_⟩
    show (members.mapM partOf >>= fun parts => pure (part :: parts)) = _
    rw [hparts]
    rfl

/-! ## Complete documents -/

/-- All that belongs to a saved report is there just once. -/
structure Complete (parts : List Part) (v : Text) : Prop where
  version : parts.filterMap Part.version? = [v]
  report : ∃ r, parts.filterMap Part.report? = [r]
  inputFile : ∃ t, headerField? (parts.filterMap Part.other?) "input_file" = some t
  generatedAt : ∃ t, headerField? (parts.filterMap Part.other?) "generated_at" = some t

/-- A draft becomes a saved report if nothing is missing. -/
theorem ofDraft?_version_iff {draft : Draft} {v : Text} :
    (∃ saved, ofDraft? draft = some saved ∧ saved.version = v) ↔
      draft.version = some v ∧ (∃ r, draft.report = some r) ∧
        (∃ t, headerField? draft.others "input_file" = some t) ∧
          ∃ t, headerField? draft.others "generated_at" = some t := by
  unfold ofDraft?
  cases draft.version with
  | none => simp
  | some w =>
    cases draft.report with
    | none => simp
    | some r =>
      cases headerField? draft.others "input_file" with
      | none => simp
      | some inputFile =>
        cases headerField? draft.others "generated_at" with
        | none => simp
        | some generatedAt => simp

/-- The version is looked at once nothing is missing. -/
theorem judge_eq_unsupportedVersion_iff {draft : Draft} {v : Text} :
    judge draft = .error (.unsupportedVersion v) ↔
      (∃ saved, ofDraft? draft = some saved ∧ saved.version = v) ∧
        majorVersion v ≠ majorVersion currentVersion := by
  unfold judge
  cases ofDraft? draft with
  | none => simp
  | some saved =>
    dsimp only
    split
    · rename_i hsame
      constructor
      · intro h
        cases h
      · rintro ⟨⟨saved', hsaved, rfl⟩, hne⟩
        cases hsaved
        exact absurd hsame hne
    · rename_i hne
      constructor
      · intro h
        cases h
        exact ⟨⟨saved, rfl, rfl⟩, hne⟩
      · rintro ⟨⟨saved', hsaved, rfl⟩, -⟩
        cases hsaved
        rfl

/-! ## Versions -/

/-- What a document whose members can all be read comes to. -/
theorem ofBytes_of_parts {o : JsonObject} {parts : List Part} (h : o.members.mapM partOf = .ok parts) :
    ofBytes o.bytes = (parts.foldlM addPart? {}).elim (.error (.malformed .badContent)) judge := by
  rw [ofBytes_object, foldlM_add_of_mapM h]
  cases parts.foldlM addPart? {} with
  | none => rfl
  | some draft => rfl

/-- The parts of a complete document make up a saved report. -/
theorem complete_iff {parts : List Part} {v : Text} :
    Complete parts v ↔ ∃ draft, parts.foldlM addPart? {} = some draft ∧
      ∃ saved, ofDraft? draft = some saved ∧ saved.version = v := by
  simp only [foldlM_addPart?_eq_some_iff, ofDraft?_version_iff]
  constructor
  · rintro ⟨hversion, ⟨r, hreport⟩, hinput, hgenerated⟩
    exact ⟨{ version := some v, report := some r, others := parts.filterMap Part.other? },
      ⟨hversion, hreport, rfl⟩, rfl, ⟨r, rfl⟩, hinput, hgenerated⟩
  · rintro ⟨draft, ⟨hversion, hreport, hothers⟩, hv, ⟨r, hr⟩, hinput, hgenerated⟩
    rw [hv] at hversion
    rw [hr] at hreport
    rw [← hothers] at hinput hgenerated
    exact ⟨hversion, ⟨r, hreport⟩, hinput, hgenerated⟩

/-- A document in which all can be read is refused for what it says if it is not complete. -/
theorem malformed_of_incomplete {o : JsonObject} {parts : List Part} (hparts : o.members.mapM partOf = .ok parts)
    (hnone : ∀ v, ¬ Complete parts v) : ofBytes o.bytes = .error (.malformed .badContent) := by
  rw [ofBytes_of_parts hparts]
  cases hdraft : parts.foldlM addPart? {} with
  | none => rfl
  | some draft =>
    show judge draft = _
    unfold judge
    cases hsaved : ofDraft? draft with
    | none => rfl
    | some saved => exact absurd (complete_iff.mpr ⟨draft, hdraft, saved, hsaved, rfl⟩) (hnone saved.version)

/-- A document in which something cannot be read is refused for the first fault. -/
theorem malformed_of_fault {o : JsonObject} {fault : ReadError} (h : o.members.mapM partOf = .error fault) :
    ∃ first, ofBytes o.bytes = .error (.malformed first) := by
  rw [ofBytes_object]
  cases hfold : o.members.foldlM add {} with
  | error first => exact ⟨first, rfl⟩
  | ok draft =>
    obtain ⟨parts, hparts⟩ := exists_parts_of_foldlM hfold
    rw [h] at hparts
    cases hparts

/-- When an object is refused for its version. -/
theorem ofBytes_eq_unsupportedVersion_iff (o : JsonObject) (v : Text) :
    ofBytes o.bytes = .error (.unsupportedVersion v) ↔
      ∃ parts, o.members.mapM partOf = .ok parts ∧ Complete parts v ∧
        majorVersion v ≠ majorVersion currentVersion := by
  cases hparts : o.members.mapM partOf with
  | error fault =>
    obtain ⟨first, hfirst⟩ := malformed_of_fault hparts
    rw [hfirst]
    constructor
    · intro h
      cases h
    · rintro ⟨parts, h, -⟩
      cases h
  | ok parts =>
    -- From here on only the parts matter, not the text that they come from.
    rw [ofBytes_of_parts hparts]
    constructor
    · intro h
      cases hdraft : parts.foldlM addPart? {} with
      | none =>
        rw [hdraft] at h
        cases h
      | some draft =>
        rw [hdraft] at h
        obtain ⟨hsaved, hmajor⟩ := judge_eq_unsupportedVersion_iff.mp h
        exact ⟨parts, rfl, complete_iff.mpr ⟨draft, hdraft, hsaved⟩, hmajor⟩
    · rintro ⟨_, h, hcomplete, hmajor⟩
      cases h
      obtain ⟨draft, hdraft, hsaved⟩ := complete_iff.mp hcomplete
      rw [hdraft]
      exact judge_eq_unsupportedVersion_iff.mpr ⟨hsaved, hmajor⟩

/-- **When a content is refused for its version.** If the content is an object of JSON, in any layout, it is refused
for its version if that is of another major number and nothing else is wrong with the document: each member can be
read, and it is complete in the form of the current version. If all members can be read and the document is not
complete, whatever its version says, it is refused for what it says; if a member cannot be read, it is refused as
well. A content that is no object is never refused for a version. -/
theorem unsupportedVersion_iff (content : Bytes) :
    (∀ o : JsonObject, o.bytes = content →
      (∀ v, ofBytes content = .error (.unsupportedVersion v) ↔
        ∃ parts, o.members.mapM partOf = .ok parts ∧ Complete parts v ∧
          majorVersion v ≠ majorVersion currentVersion) ∧
      (∀ parts, o.members.mapM partOf = .ok parts → (∀ v, ¬ Complete parts v) →
        ofBytes content = .error (.malformed .badContent)) ∧
      ∀ fault, o.members.mapM partOf = .error fault → ∃ first, ofBytes content = .error (.malformed first)) ∧
    ((∀ o : JsonObject, o.bytes ≠ content) → ∃ first, ofBytes content = .error (.malformed first)) := by
  refine ⟨?_, malformed_of_no_object⟩
  rintro o rfl
  exact ⟨ofBytes_eq_unsupportedVersion_iff o, fun _ => malformed_of_incomplete, fun _ => malformed_of_fault⟩

/-- A report of no lines. -/
def emptyReport : Report :=
  { parsedLines := 0, failedLines := 0, successRate := 0.0, eventTypes := [], totalPackets := 0
    retransmittedPackets := 0, retransmissionRate := 0.0, totalBytes := 0, startTime := none, endTime := none
    duration := 0.0, throughputBps := 0.0, packetTypes := [], uniqueFlows := 0, avgPacketsPerFlow := 0.0
    syntheticSeqs := 0, problemLines := [] }

theorem words_emptyReport : emptyReport.Words := by constructor <;> decide

/-- A document of the next major version without white space, with its members in another order than they are
written and one more among them. -/
def nextDocument : JsonObject :=
  let report : JsonObject := .tight ((reportFields emptyReport).map fun f => (f.name, encode (f.doc 0))) (by
    rw [List.forall_mem_map]
    exact fun f hf => (fits_reportFields words_emptyReport f hf).isJson 0)
  .tight
    [("report".toList, report.value), ("author".toList, ascii "null"),
     ("generated_at".toList, encode (quoted "now".toList)), ("version".toList, encode (quoted "2.0.0".toList)),
     ("input_file".toList, encode (quoted "a.tr".toList))] (by
    simp only [List.forall_mem_cons]
    exact ⟨report.isJson_value, .word (w := "null") (Or.inl rfl), .string (isString_quoted _),
      .string (isString_quoted _), .string (isString_quoted _), fun _ h => nomatch h⟩)

/-- It is refused for its version, so it is complete. -/
theorem nextDocument_unsupported :
    ofBytes nextDocument.bytes = .error (.unsupportedVersion "2.0.0".toList) ∧
      ∃ parts, nextDocument.members.mapM partOf = .ok parts ∧ Complete parts "2.0.0".toList := by
  have hanswer : ofBytes nextDocument.bytes = .error (.unsupportedVersion "2.0.0".toList) :=
    eq_error_of_map (by decide +kernel)
  obtain ⟨parts, hparts, hcomplete, -⟩ := (((unsupportedVersion_iff _).1 nextDocument rfl).1 _).mp hanswer
  exact ⟨hanswer, parts, hparts, hcomplete⟩

/-- A document that has nothing but a version. -/
def versionOnly (v : Text) : JsonObject :=
  .tight [("version".toList, encode (quoted v))] (by
    rw [List.forall_mem_singleton]
    exact .string (isString_quoted v))

theorem mapM_versionOnly (v : Text) : (versionOnly v).members.mapM partOf = .ok [.version v] := by
  have hpart : partOf (.tight "version".toList (encode (quoted v))) = .ok (.version v) :=
    bind_eq_ok.mpr ⟨"version".toList, (reads_quoted _).whole_eq,
      bind_eq_ok.mpr ⟨v, (yields_text v 0).reads.whole_eq, rfl⟩⟩
  show [_].mapM partOf = _
  rw [List.mapM_cons, hpart]
  rfl

/-- A document that has nothing but a version that is not supported is refused for its form, not for its
version. -/
theorem foreign_document_is_malformed :
    let content := encode "\x7b\"version\":\"2.0.0\"\x7d".toList
    (∃ o : JsonObject, o.bytes = content ∧ o.members.mapM partOf = .ok [.version "2.0.0".toList]) ∧
      majorVersion "2.0.0".toList ≠ majorVersion currentVersion ∧
        ofBytes content = .error (.malformed .badContent) := by
  intro content
  have hbytes : (versionOnly "2.0.0".toList).bytes = content := by decide +kernel
  have hparts := mapM_versionOnly "2.0.0".toList
  refine ⟨⟨_, hbytes, hparts⟩, by decide, ?_⟩
  rw [← hbytes]
  refine malformed_of_incomplete hparts fun v hcomplete => ?_
  obtain ⟨r, hr⟩ := hcomplete.report
  cases hr

end SavedReport
end PacketTrace

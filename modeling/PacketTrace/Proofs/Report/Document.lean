import PacketTrace.Proofs.Json.Accepted.Container
import PacketTrace.Proofs.Report.Saved

/-!
# `Proofs.Report.Document` — documents, member by member

A file that is meant as a saved report is an object in some layout, whose members may come in any order, with
others among them that do not belong to the format. What is made of the whole follows from what is made of each
member on its own (`ofBytes_object`): the first fault in the text decides, and if there is none, whether something
is missing or given twice, and only then the version.

## Contents
- **Members.** `partOf`, what a member gives, and `add` for what is known after one more of them.
- **Documents.** `judge` and `ofBytes_object`.
- **Reports that were written.** `ofBytes_bytes`.
-/

namespace PacketTrace
namespace SavedReport

open Json Json.Reader Utf8

/-! ## Members -/

section

variable {P : ∀ {α : Type}, Reader α → Prop} (hP : Compositional P)
include hP

theorem compositional_readProblem : P readProblem := by
  have hrecord : P (record problemSchema) := by
    apply hP.record
    simp only [problemSchema, List.forall_mem_cons]
    exact ⟨hP.map hP.count _, hP.map hP.text _, fun _ h => nomatch h⟩
  refine hP.check hrecord _ fun fields => ?_
  cases problemOfFields? fields with
  | none => exact Or.inr ⟨.badContent, rfl⟩
  | some line => exact Or.inl ⟨line, rfl⟩

/-- What holds for readers and the readers they are made up of holds for the reader of a report. -/
theorem compositional_readReport : P readReport := by
  have hcount : P (.count <$> count : Reader FieldValue) := hP.map hP.count _
  have hfigure : P (.figure <$> float : Reader FieldValue) := hP.map hP.float _
  have htime : P (.time <$> optionalFloat : Reader FieldValue) := hP.map hP.optionalFloat _
  have hevents : P (.events <$> list (pair (enumerated EventKind.ofName?) count) : Reader FieldValue) :=
    hP.map (hP.list (hP.pair (hP.enumerated _) hP.count)) _
  have hpackets : P (.packets <$> list (pair (enumerated Bucket.ofName?) count) : Reader FieldValue) :=
    hP.map (hP.list (hP.pair (hP.enumerated _) hP.count)) _
  have hproblems : P (.problems <$> list readProblem : Reader FieldValue) :=
    hP.map (hP.list (compositional_readProblem hP)) _
  have hrecord : P (record reportSchema) := by
    apply hP.record
    simp only [reportSchema, List.forall_mem_cons]
    exact ⟨hcount, hcount, hfigure, hevents, hcount, hcount, hfigure, hcount, htime, htime, hfigure, hfigure,
      hpackets, hcount, hfigure, hcount, hproblems, fun _ h => nomatch h⟩
  refine hP.check hrecord _ fun fields => ?_
  cases reportOfFields? fields with
  | none => exact Or.inr ⟨.badContent, rfl⟩
  | some report => exact Or.inl ⟨report, rfl⟩

end

/-- **A report is one value**, also if it is of another form. -/
theorem local_readReport : Local readReport := compositional_readReport compositional_local

/-- What a member gives to a saved report. -/
inductive Part where
  | version (v : Text)
  | report (r : Report)
  /-- A member that does not belong to the format; of its value only a string is kept. -/
  | other (name : Text) (value : Option Text)

/-- What a member gives, or what is wrong with it. -/
def partOf (m : Member) : Except ReadError Part := do
  let name ← whole string m.name.value
  if name = "version".toList then return .version (← whole text m.value.value)
  else if name = "report".toList then return .report (← whole readReport m.value.value)
  else return .other name (← whole (skipValue strict maxDepth) m.value.value)

/-- What is known after one more member. A member of the format that is given twice is refused before its second
value is looked at. -/
def add (draft : Draft) (m : Member) : Except ReadError Draft := do
  let name ← whole string m.name.value
  if name = "version".toList then
    if draft.version.isSome then throw .badContent
    return { draft with version := some (← whole text m.value.value) }
  else if name = "report".toList then
    if draft.report.isSome then throw .badContent
    return { draft with report := some (← whole readReport m.value.value) }
  else
    return { draft with others := draft.others ++ [(name, ← whole (skipValue strict maxDepth) m.value.value)] }

theorem takes_add {m : Member} (hname : IsString m.name.value) (hvalue : IsJson m.value.value) :
    Takes string takeMember (fun m => m) add m := by
  have hversion := (local_text _ hvalue).yields
  have hreport := (local_readReport _ hvalue).yields
  have hother := (local_skipValue settled_strict maxDepth _ hvalue).yields
  refine ⟨hname.begins, fun draft rest hrest => ?_⟩
  refine (m.name_bind hname.reads (takeMember draft) rest).trans ?_
  unfold add
  cases whole string m.name.value with
  | error fault => rfl
  | ok name =>
    show takeMember draft name _ = Except.map _ (ite _ _ _)
    unfold takeMember
    split
    · split
      · rfl
      · refine (m.value_bind hversion hrest _).trans ?_
        cases whole text m.value.value with
        | error fault => rfl
        | ok v => rfl
    split
    · split
      · rfl
      · refine (m.value_bind hreport hrest _).trans ?_
        cases whole readReport m.value.value with
        | error fault => rfl
        | ok r => rfl
    · refine (m.value_bind hother hrest _).trans ?_
      cases whole (skipValue strict maxDepth) m.value.value with
      | error fault => rfl
      | ok value => rfl

/-! ## Documents -/

/-- What becomes of what is known at the end of a document. -/
def judge (draft : Draft) : Except LoadError SavedReport :=
  match ofDraft? draft with
  | none => .error (.malformed .badContent)
  | some saved =>
    if majorVersion saved.version = majorVersion currentVersion then .ok saved
    else .error (.unsupportedVersion saved.version)

/-- What is read of an object is made up of what is read of its members. -/
theorem whole_object (o : JsonObject) :
    whole read o.bytes = o.members.foldlM add {} >>= fun draft =>
      match ofDraft? draft with
      | some saved => .ok saved
      | none => .error .badContent := by
  have hmembers := members_remaining (fun m hm => takes_add (o.isString m hm) (o.isJson m hm)) o.gap {}
    o.after.bytes
  refine whole_eq_of_apply ?_ o.after.all_isSpace
  unfold read JsonObject.bytes JsonObject.value
  rw [List.cons_append, bind_of_ok (peekByte_cons o.before.all_isSpace rfl _), if_pos rfl]
  cases hdraft : o.members.foldlM add {} with
  | error fault =>
    rw [hdraft] at hmembers
    exact bind_of_error hmembers
  | ok draft =>
    rw [hdraft] at hmembers
    refine (bind_of_ok hmembers).trans ?_
    simp only [bind, Except.bind]
    cases ofDraft? draft with
    | none => rfl
    | some saved => rfl

/-- **A document is judged by its members.** -/
theorem ofBytes_object (o : JsonObject) :
    ofBytes o.bytes = ((o.members.foldlM add {}).mapError LoadError.malformed >>= judge) := by
  unfold ofBytes
  rw [whole_object]
  cases o.members.foldlM add {} with
  | error fault => rfl
  | ok draft =>
    simp only [bind, Except.bind, Except.mapError, judge]
    cases ofDraft? draft with
    | none => rfl
    | some saved => rfl

/-! ## Contents that are no objects -/

theorem acceptsMember_takeMember : AcceptsMember takeMember := by
  intro draft name input rest next h
  unfold takeMember at h
  split at h
  · split at h
    · cases h
    · exact separator_bind_eq_ok accepts_text (fun v => takesNothing_pure { draft with version := some v }) h
  split at h
  · split at h
    · cases h
    · exact separator_bind_eq_ok (compositional_readReport compositional_accepts)
        (fun r => takesNothing_pure { draft with report := some r }) h
  · exact separator_bind_eq_ok (accepts_skipValue strict_sound maxDepth)
      (fun value => takesNothing_pure { draft with others := draft.others ++ [(name, value)] }) h

/-- What is read as a saved report is an object. -/
theorem read_eq_ok {content rest : Bytes} {saved : SavedReport} (h : read content = .ok (saved, rest)) :
    ∃ o : JsonObject, content = o.before.bytes ++ (o.value ++ rest) := by
  -- The white space in front of the brace is that in front of the object.
  obtain ⟨b, behind, hpeek, hb⟩ := exists_of_bind h
  obtain ⟨before, tail, rfl, rfl, -⟩ := peekByte_eq_ok hpeek
  by_cases hbrace : b = openBrace
  · rw [if_pos hbrace, hbrace] at hb
    obtain ⟨draft, behind, hmembers, hdraft⟩ := exists_of_bind hb
    have hrest : rest = behind := by
      cases hsaved : ofDraft? draft with
      | none =>
        rw [hsaved] at hdraft
        cases hdraft
      | some saved =>
        rw [hsaved] at hdraft
        cases hdraft
        rfl
    obtain ⟨gap, members, rfl, hnames, hvalues⟩ :=
      (members_eq_ok acceptsName_string acceptsMember_takeMember hmembers).object
    rw [hbrace, hrest]
    exact ⟨{ before, members, gap, isString := hnames, isJson := hvalues }, rfl⟩
  · rw [if_neg hbrace] at hb
    exact absurd hb (wrongType_ne_ok _ _ _)

theorem whole_read_eq_ok {content : Bytes} {saved : SavedReport} (h : whole read content = .ok saved) :
    ∃ o : JsonObject, o.bytes = content := by
  obtain ⟨⟨result, rest⟩, hread, hrest⟩ := bind_eq_ok.mp h
  obtain ⟨o, rfl⟩ := read_eq_ok hread
  by_cases hspace : rest.all isSpace = true
  · exact ⟨{ o with after := ⟨rest, hspace⟩ }, rfl⟩
  · dsimp only at hrest
    rw [if_neg hspace] at hrest
    cases hrest

/-- **Contents that are no object** are refused before any version is looked at. -/
theorem malformed_of_no_object {content : Bytes} (h : ∀ o : JsonObject, o.bytes ≠ content) :
    ∃ fault, ofBytes content = .error (.malformed fault) := by
  unfold ofBytes
  cases hread : whole read content with
  | error fault => exact ⟨fault, rfl⟩
  | ok saved =>
    obtain ⟨o, ho⟩ := whole_read_eq_ok hread
    exact absurd ho (h o)

/-! ## Reports that were written -/

/-- The members of a saved report as it is written. -/
def memberDocs (s : SavedReport) : List (Text × Doc) :=
  [("version".toList, ofText s.version),
   ("input_file".toList, ofText s.header.inputFile),
   ("generated_at".toList, ofText s.header.generatedAt),
   ("report".toList, reportDocument s.report)]

/-- A saved report as an object. -/
def toObject (s : SavedReport) (h : s.report.Words) : JsonObject :=
  .ofDocs (memberDocs s) (by
    simp only [memberDocs, List.forall_mem_cons]
    exact ⟨isJson_ofText _, isJson_ofText _, isJson_ofText _, isJson_reportDocument h, fun _ h => nomatch h⟩)

theorem whole_string_ofDoc (depth : Nat) (name : Text) (doc : Doc) :
    whole string (Member.ofDoc depth name doc).name.value = .ok name :=
  (reads_quoted name).whole_eq

theorem add_version (v : Text) {draft : Draft} (h : draft.version = none) :
    add draft (.ofDoc 1 "version".toList (ofText v)) = .ok { draft with version := some v } := by
  have hvalue : whole text (Member.ofDoc 1 "version".toList (ofText v)).value.value = .ok v :=
    (yields_text v 1).reads.whole_eq
  simp only [add, whole_string_ofDoc, hvalue, h, bind, Except.bind]
  rfl

theorem add_text {name : Text} (hversion : name ≠ "version".toList) (hreport : name ≠ "report".toList)
    (t : Text) (draft : Draft) :
    add draft (.ofDoc 1 name (ofText t)) = .ok { draft with others := draft.others ++ [(name, some t)] } := by
  have hstring : Reads strict.string (encode (quoted t)) (.ok (some t)) := (reads_quoted t).map some
  have hvalue : whole (skipValue strict maxDepth) (Member.ofDoc 1 name (ofText t)).value.value = .ok (some t) :=
    (yields_scalarOr_string _ (isString_quoted t) hstring).reads.whole_eq
  simp only [add, whole_string_ofDoc, hvalue, bind, Except.bind]
  rw [if_neg hversion, if_neg hreport]
  rfl

theorem add_report {r : Report} (hwords : r.Words) {draft : Draft} (h : draft.report = none) :
    add draft (.ofDoc 1 "report".toList (reportDocument r)) =
      (rereadReport r).map fun r => { draft with report := some r } := by
  have hvalue : whole readReport (Member.ofDoc 1 "report".toList (reportDocument r)).value.value =
      rereadReport r := (yields_report hwords 1).reads.whole_eq
  have hne : "report".toList ≠ "version".toList := by decide
  simp only [add, whole_string_ofDoc, hvalue, h, bind, Except.bind]
  rw [if_neg hne, if_pos trivial]
  cases rereadReport r with
  | error fault => rfl
  | ok r => rfl

/-- What is known once all members of a saved report have been read. -/
theorem foldlM_toObject (s : SavedReport) (h : s.report.Words) :
    (s.toObject h).members.foldlM add {} = (rereadReport s.report).map fun r =>
      { version := some s.version, report := some r,
        others := [("input_file".toList, some s.header.inputFile),
          ("generated_at".toList, some s.header.generatedAt)] } := by
  show List.foldlM add {} [_, _, _, _] = _
  rw [List.foldlM_cons, add_version s.version rfl]
  show List.foldlM add { version := some s.version } [_, _, _] = _
  have hinput : "input_file".toList ≠ "version".toList ∧ "input_file".toList ≠ "report".toList := by decide
  rw [List.foldlM_cons, add_text hinput.1 hinput.2]
  show List.foldlM add _ [_, _] = _
  have hgenerated : "generated_at".toList ≠ "version".toList ∧ "generated_at".toList ≠ "report".toList := by
    decide
  rw [List.foldlM_cons, add_text hgenerated.1 hgenerated.2]
  show List.foldlM add _ [_] = _
  rw [List.foldlM_cons, add_report h rfl]
  cases rereadReport s.report with
  | error fault => rfl
  | ok r => rfl

/-- **A saved report is read back**, with every float of the report read once more. -/
theorem ofBytes_bytes (s : SavedReport) (h : s.report.Words) :
    ofBytes s.bytes =
      (rereadReport s.report).mapError LoadError.malformed >>= fun r =>
        if majorVersion s.version = majorVersion currentVersion then .ok { s with report := r }
        else .error (.unsupportedVersion s.version) := by
  have hbytes : s.bytes = (s.toObject h).bytes := (JsonObject.bytes_ofDocs _ _).symm
  rw [hbytes, ofBytes_object, foldlM_toObject]
  cases rereadReport s.report with
  | error fault => rfl
  | ok r => rfl

end SavedReport
end PacketTrace

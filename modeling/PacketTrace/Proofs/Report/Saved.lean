import PacketTrace.Proofs.Except
import PacketTrace.Proofs.Json.FloatText
import PacketTrace.Proofs.Json.Record
import PacketTrace.Report.Saved

/-!
# `Proofs.Report.Saved` — reports that were written in JSON

A report that was written is read back field by field. Texts, counts and lists come back as they were. The
figures and the times do so only if their decimal form is read as the same float (`reread`), so what a
reader makes of a report is the report with every float read once more: `rereadReport`.

## Contents
- **Entries.** Entries of a distribution and quoted lines.
- **Reports.** `Report.Words`, `rereadReport` and `yields_report`.
-/

namespace PacketTrace
namespace SavedReport

open Json Json.Reader Utf8

/-! ## Entries -/

/-- The entries of a distribution are read back. -/
theorem yields_entries {κ : Type} {name : κ → Text} {ofName? : Text → Option κ}
    (hname : ∀ key, ofName? (name key) = some key) {entries : List (κ × Nat)}
    (hwords : ∀ e ∈ entries, e.2 ≤ maxWord) (depth : Nat) :
    Yields (list (pair (enumerated ofName?) count))
      (encode (array (entries.map fun e => entryDocument (name e.1) e.2) depth)) (.ok entries) := by
  have hentry : ∀ e ∈ entries, ∀ depth, Yields (pair (enumerated ofName?) count)
      (encode (entryDocument (name e.1) e.2 depth)) (.ok e) := by
    intro e he depth
    refine yields_pair (fun depth => ⟨?_, begins_text _ depth⟩) (fun depth => ⟨?_, ?_⟩) depth
    · exact yields_enumerated ofName? (hname e.1) depth
    · exact yields_ofCount (hwords e he) depth
    · exact begins_ofCount e.2 depth
  have hyields := yields_array hentry (fun _ _ depth => begins_array _ depth) depth
  rw [mapM_ok] at hyields
  exact hyields

theorem isJson_entries {κ : Type} (name : κ → Text) (entries : List (κ × Nat)) :
    IsJsonDoc (array (entries.map fun e => entryDocument (name e.1) e.2)) := by
  apply isJson_array
  rw [List.forall_mem_map]
  intro e _
  apply isJson_array
  simp only [List.forall_mem_cons]
  exact ⟨isJson_ofText _, isJson_ofCount _, fun _ h => nomatch h⟩

/-- The fields of a quoted line. -/
def problemFields (p : ProblemLine) : List (RecordField ProblemField) :=
  [⟨"line_number".toList, ofCount p.lineNumber, .ok (.count p.lineNumber)⟩,
   ⟨"text".toList, ofText p.text, .ok (.text p.text)⟩]

/-- A quoted line is read back. -/
theorem yields_problem {p : ProblemLine} (hword : p.lineNumber ≤ maxWord) (depth : Nat) :
    Yields readProblem (encode (problemDocument p depth)) (.ok p) := by
  have hfits : ∀ f ∈ problemFields p, f.Fits problemSchema := by
    intro f hf
    simp only [problemFields, List.mem_cons, List.not_mem_nil, or_false] at hf
    rcases hf with rfl | rfl
    · exact ⟨isJson_ofCount _, _, rfl, fun depth => (yields_ofCount hword depth).map ProblemField.count⟩
    · exact ⟨isJson_ofText _, _, rfl, fun depth => (yields_text p.text depth).map ProblemField.text⟩
  have hnames : ((problemFields p).map RecordField.name).Nodup :=
    show ["line_number".toList, "text".toList].Nodup by decide
  intro before rest hbefore hrest
  exact bind_of_ok (yields_record hnames hfits depth before rest hbefore hrest)

theorem isJson_problemDocument (p : ProblemLine) : IsJsonDoc (problemDocument p) := by
  apply isJson_object
  simp only [List.forall_mem_cons]
  exact ⟨isJson_ofCount _, isJson_ofText _, fun _ h => nomatch h⟩

theorem yields_problems {lines : List ProblemLine} (hwords : ∀ p ∈ lines, p.lineNumber ≤ maxWord)
    (depth : Nat) :
    Yields (list readProblem) (encode (array (lines.map problemDocument) depth)) (.ok lines) := by
  have hproblem : ∀ p ∈ lines, ∀ depth, Yields readProblem (encode (problemDocument p depth)) (.ok p) :=
    fun p hp depth => yields_problem (hwords p hp) depth
  have hyields := yields_array hproblem (fun _ _ depth => begins_object _ depth) depth
  rw [mapM_ok] at hyields
  exact hyields

end SavedReport

/-! ## Reports -/

/-- All counts of a report fit into words. -/
structure Report.Words (r : Report) : Prop where
  parsedLines : r.parsedLines ≤ maxWord
  failedLines : r.failedLines ≤ maxWord
  totalPackets : r.totalPackets ≤ maxWord
  retransmittedPackets : r.retransmittedPackets ≤ maxWord
  totalBytes : r.totalBytes ≤ maxWord
  uniqueFlows : r.uniqueFlows ≤ maxWord
  syntheticSeqs : r.syntheticSeqs ≤ maxWord
  eventTypes : ∀ e ∈ r.eventTypes, e.2 ≤ maxWord
  packetTypes : ∀ e ∈ r.packetTypes, e.2 ≤ maxWord
  problemLines : ∀ p ∈ r.problemLines, p.lineNumber ≤ maxWord

namespace SavedReport

open Json Json.Reader Utf8

def countField (name : String) (n : Nat) : RecordField FieldValue :=
  ⟨name.toList, ofCount n, .ok (.count n)⟩

def figureField (name : String) (x : Float) : RecordField FieldValue :=
  ⟨name.toList, ofFloat x, .figure <$> reread x⟩

def timeFields (name : String) : Option Float → List (RecordField FieldValue)
  | none => []
  | some x => [⟨name.toList, ofFloat x, .time <$> rereadTime (some x)⟩]

/-- The fields of a report as they are written, with what a reader makes of each. -/
def reportFields (r : Report) : List (RecordField FieldValue) :=
  [countField "parsed_lines" r.parsedLines,
   countField "failed_lines" r.failedLines,
   figureField "success_rate" r.successRate,
   ⟨"event_types".toList, array (r.eventTypes.map fun e => entryDocument e.1.name e.2),
     .ok (.events r.eventTypes)⟩,
   countField "total_packets" r.totalPackets,
   countField "retransmitted_packets" r.retransmittedPackets,
   figureField "retransmission_rate" r.retransmissionRate,
   countField "total_bytes" r.totalBytes] ++
  timeFields "start_time" r.startTime ++
  timeFields "end_time" r.endTime ++
  [figureField "duration" r.duration,
   figureField "throughput_bps" r.throughputBps,
   ⟨"packet_types".toList, array (r.packetTypes.map fun e => entryDocument e.1.name e.2),
     .ok (.packets r.packetTypes)⟩,
   countField "unique_flows" r.uniqueFlows,
   figureField "avg_packets_per_flow" r.avgPacketsPerFlow,
   countField "synthetic_seqs" r.syntheticSeqs,
   ⟨"problem_lines".toList, array (r.problemLines.map problemDocument), .ok (.problems r.problemLines)⟩]

/-- The report with every float as a reader makes it out; the first that it cannot read is a fault. -/
def rereadReport (r : Report) : Except ReadError Report := do
  let successRate ← reread r.successRate
  let retransmissionRate ← reread r.retransmissionRate
  let startTime ← rereadTime r.startTime
  let endTime ← rereadTime r.endTime
  let duration ← reread r.duration
  let throughputBps ← reread r.throughputBps
  let avgPacketsPerFlow ← reread r.avgPacketsPerFlow
  return { r with
    successRate, retransmissionRate, startTime, endTime, duration, throughputBps, avgPacketsPerFlow }

theorem reportDocument_eq (r : Report) :
    reportDocument r = object ((reportFields r).map fun f => (f.name, f.doc)) := by
  obtain ⟨_, _, _, _, _, _, _, _, start, latest, _⟩ := r
  cases start <;> cases latest <;> rfl

theorem sublist_timeFields (name : String) (time : Option Float) :
    List.Sublist ((timeFields name time).map RecordField.name) [name.toList] := by
  cases time with
  | none => exact List.nil_sublist _
  | some x => exact List.Sublist.refl _

/-- The fields that are written are fields of the schema, in its order. -/
theorem nodup_reportFields (r : Report) : ((reportFields r).map RecordField.name).Nodup := by
  have hschema : (reportSchema.map (·.1)).Nodup := by decide
  refine List.Sublist.nodup ?_ hschema
  unfold reportFields
  rw [List.map_append, List.map_append, List.map_append]
  exact (((List.Sublist.refl _).append (sublist_timeFields "start_time" r.startTime)).append
    (sublist_timeFields "end_time" r.endTime)).append (List.Sublist.refl _)

theorem fits_countField {name : String} {n : Nat} (h : n ≤ maxWord)
    (hname : reportSchema.lookup name.toList = some (.count <$> count)) :
    (countField name n).Fits reportSchema :=
  ⟨isJson_ofCount n, _, hname, fun depth => (yields_ofCount h depth).map FieldValue.count⟩

theorem fits_figureField {name : String} (x : Float)
    (hname : reportSchema.lookup name.toList = some (.figure <$> float)) :
    (figureField name x).Fits reportSchema :=
  ⟨isJson_ofFloat x, _, hname, fun depth => (yields_ofFloat x depth).map FieldValue.figure⟩

theorem fits_timeFields {name : String} (time : Option Float)
    (hname : reportSchema.lookup name.toList = some (.time <$> optionalFloat)) :
    ∀ f ∈ timeFields name time, f.Fits reportSchema := by
  intro f hf
  cases time with
  | none => cases hf
  | some x =>
    obtain rfl := List.mem_singleton.mp hf
    exact ⟨isJson_ofFloat x, _, hname, fun depth => (yields_optionalFloat x depth).map FieldValue.time⟩

/-- Every field is written so that its reader in the schema can read it. -/
theorem fits_reportFields {r : Report} (h : r.Words) :
    ∀ f ∈ reportFields r, f.Fits reportSchema := by
  have hevents (depth : Nat) := yields_entries EventKind.ofName?_name h.eventTypes depth
  have hpackets (depth : Nat) := yields_entries Bucket.ofName?_name h.packetTypes depth
  have hproblems (depth : Nat) := yields_problems h.problemLines depth
  have hquotes : IsJsonDoc (array (r.problemLines.map problemDocument)) :=
    isJson_array (List.forall_mem_map.mpr fun p _ => isJson_problemDocument p)
  unfold reportFields
  simp only [List.forall_mem_append, List.forall_mem_cons]
  refine ⟨⟨⟨⟨?_, ?_, ?_, ?_, ?_, ?_, ?_, ?_, ?_⟩, ?_⟩, ?_⟩, ?_, ?_, ?_, ?_, ?_, ?_, ?_, ?_⟩
  · exact fits_countField h.parsedLines rfl
  · exact fits_countField h.failedLines rfl
  · exact fits_figureField r.successRate rfl
  · exact ⟨isJson_entries _ _, _, rfl, fun depth => (hevents depth).map FieldValue.events⟩
  · exact fits_countField h.totalPackets rfl
  · exact fits_countField h.retransmittedPackets rfl
  · exact fits_figureField r.retransmissionRate rfl
  · exact fits_countField h.totalBytes rfl
  · exact fun f hf => nomatch hf
  · exact fits_timeFields r.startTime rfl
  · exact fits_timeFields r.endTime rfl
  · exact fits_figureField r.duration rfl
  · exact fits_figureField r.throughputBps rfl
  · exact ⟨isJson_entries _ _, _, rfl, fun depth => (hpackets depth).map FieldValue.packets⟩
  · exact fits_countField h.uniqueFlows rfl
  · exact fits_figureField r.avgPacketsPerFlow rfl
  · exact fits_countField h.syntheticSeqs rfl
  · exact ⟨hquotes, _, rfl, fun depth => (hproblems depth).map FieldValue.problems⟩
  · exact fun f hf => nomatch hf

/-- A report is written in JSON. -/
theorem isJson_reportDocument {r : Report} (h : r.Words) : IsJsonDoc (reportDocument r) := by
  rw [reportDocument_eq]
  apply isJson_object
  intro m hm
  obtain ⟨f, hf, rfl⟩ := List.mem_map.mp hm
  exact (fits_reportFields h f hf).isJson

/-- The report that some fields make up, or a fault if one is missing. -/
def assemble (fields : List (Text × FieldValue)) : Except ReadError Report :=
  match reportOfFields? fields with
  | some report => .ok report
  | none => .error .badContent

theorem mapM_entry_cons {β γ : Type} (f : RecordField β) (fields : List (RecordField β))
    (next : List (Text × β) → Except ReadError γ) :
    ((f :: fields).mapM RecordField.entry >>= next) =
      f.outcome >>= fun value => fields.mapM RecordField.entry >>= fun rest =>
        next ((f.name, value) :: rest) := by
  rw [List.mapM_cons, RecordField.entry]
  cases f.outcome with
  | error fault => rfl
  | ok value =>
    cases fields.mapM RecordField.entry with
    | error fault => rfl
    | ok rest => rfl

theorem countField_bind {γ : Type} (name : String) (n : Nat) (fields : List (RecordField FieldValue))
    (next : List (Text × FieldValue) → Except ReadError γ) :
    ((countField name n :: fields).mapM RecordField.entry >>= next) =
      fields.mapM RecordField.entry >>= fun rest => next ((name.toList, .count n) :: rest) :=
  mapM_entry_cons _ fields next

theorem figureField_bind {γ : Type} (name : String) (x : Float) (fields : List (RecordField FieldValue))
    (next : List (Text × FieldValue) → Except ReadError γ) :
    ((figureField name x :: fields).mapM RecordField.entry >>= next) =
      reread x >>= fun y => fields.mapM RecordField.entry >>= fun rest =>
        next ((name.toList, .figure y) :: rest) := by
  rw [mapM_entry_cons]
  show (FieldValue.figure <$> reread x >>= _) = _
  cases reread x with
  | error fault => rfl
  | ok y => rfl

theorem timeFields_bind {γ : Type} (name : String) (time : Option Float)
    (fields : List (RecordField FieldValue)) (next : List (Text × FieldValue) → Except ReadError γ) :
    ((timeFields name time ++ fields).mapM RecordField.entry >>= next) =
      rereadTime time >>= fun t => fields.mapM RecordField.entry >>= fun rest =>
        next ((if time.isSome then [(name.toList, .time t)] else []) ++ rest) := by
  cases time with
  | none => rfl
  | some x =>
    show ((_ :: fields).mapM RecordField.entry >>= next) = _
    rw [mapM_entry_cons]
    show (FieldValue.time <$> rereadTime (some x) >>= _) = _
    cases rereadTime (some x) with
    | error fault => rfl
    | ok y => rfl

/-- A report is complete with all its fields. -/
theorem assemble_reportFields (r : Report) :
    (reportFields r).mapM RecordField.entry >>= assemble = rereadReport r := by
  unfold reportFields rereadReport
  simp only [List.append_assoc, List.cons_append, List.nil_append]
  -- field by field; the floats are where a fault may come from
  rw [countField_bind, countField_bind, figureField_bind]
  refine bind_congr fun successRate => ?_
  rw [mapM_entry_cons]
  change (_ :: _).mapM RecordField.entry >>= _ = _
  rw [countField_bind, countField_bind, figureField_bind]
  refine bind_congr fun retransmissionRate => ?_
  rw [countField_bind, timeFields_bind]
  refine bind_congr_ok fun startTime hstart => ?_
  rw [timeFields_bind]
  refine bind_congr_ok fun endTime hend => ?_
  rw [figureField_bind]
  refine bind_congr fun duration => ?_
  rw [figureField_bind]
  refine bind_congr fun throughputBps => ?_
  rw [mapM_entry_cons]
  change (_ :: _).mapM RecordField.entry >>= _ = _
  rw [countField_bind, figureField_bind]
  refine bind_congr fun avgPacketsPerFlow => ?_
  rw [countField_bind, mapM_entry_cons]
  -- a time that is not written is not found
  cases hr : r.startTime with
  | none =>
    rw [hr] at hstart
    cases hstart
    cases hr' : r.endTime with
    | none =>
      rw [hr'] at hend
      cases hend
      rfl
    | some y => rfl
  | some x =>
    cases hr' : r.endTime with
    | none =>
      rw [hr'] at hend
      cases hend
      rfl
    | some y => rfl

/-- **A report is read back, with every float read once more.** -/
theorem yields_report {r : Report} (h : r.Words) (depth : Nat) :
    Yields readReport (encode (reportDocument r depth)) (rereadReport r) := by
  have hrecord := yields_record (nodup_reportFields r) (fits_reportFields h) depth
  rw [← reportDocument_eq] at hrecord
  rw [← assemble_reportFields]
  intro before rest hbefore hrest
  have hread := hrecord before rest hbefore hrest
  unfold readReport
  cases hfields : (reportFields r).mapM RecordField.entry with
  | error fault =>
    rw [hfields] at hread
    exact bind_of_error hread
  | ok fields =>
    rw [hfields] at hread
    rw [bind_of_ok hread]
    show _ = (assemble fields).map _
    unfold assemble
    cases reportOfFields? fields with
    | none => rfl
    | some report => rfl

end SavedReport
end PacketTrace

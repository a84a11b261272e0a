import PacketTrace.Proofs.Json.Local

/-!
# `Proofs.Json.Record` — records are read field by field

A record is an object with the fields of a schema, or an array of their values. It is one value if each field is, so
a fault in a record comes from the record alone. A record that was written has each field once, in the form that
its reader in the schema expects, and what a reader makes of it is made up of what it makes of the fields.

## Contents
- **Any record.** `local_record`.
- **Parts.** `Compositional`: what readers have in common with the readers they are made up of.
- **Records that were written.** `RecordField`, and `yields_record` for the fields of a schema.
-/

namespace PacketTrace.Json.Reader

open Utf8

variable {α β : Type}

/-! ## Any record -/

/-- A field is read if the schema lists it and passed over if not. -/
theorem determined_takeField {schema : List (Text × Reader β)} (hschema : ∀ f ∈ schema, Local f.2) {m : Member}
    (hvalue : IsJson m.value.value) (known : List (Text × β)) (name : Text) :
    Determined (takeField schema known name) m.behindName := by
  unfold takeField
  cases hread : schema.lookup name with
  | none => exact m.determined_value ⟨_, yields_ignored hvalue⟩ fun _ => .pure known
  | some read =>
    obtain ⟨before, after, hparts, -⟩ := List.lookup_eq_some_iff.mp hread
    have hlocal : Local read := hschema (name, read) (by simp [hparts])
    dsimp only
    -- A field that is known already is refused before its value is read.
    split
    · exact ⟨.error .badContent, fun _ _ => rfl⟩
    · exact m.determined_value (hlocal _ hvalue) fun value => .pure (known ++ [(name, value)])

/-- **A record is one value** if the fields of its schema are. -/
theorem local_record {schema : List (Text × Reader β)} (hschema : ∀ f ∈ schema, Local f.2) :
    Local (record schema) := by
  intro value hvalue
  obtain ⟨b, tail, rfl, hhead⟩ := hvalue.head
  refine settles_of_head hhead.first.1 ?_
  by_cases harray : b = openBracket
  · subst harray
    obtain ⟨gap, items, rfl, hitems⟩ := hvalue.exists_items
    exact .skip_bind (determined_fieldsInOrder hschema gap none hitems)
  by_cases hobject : b = openBrace
  · subst hobject
    obtain ⟨gap, members, rfl, hnames, hvalues⟩ := hvalue.exists_members
    refine determined_members hnames ?_ gap []
    intro m hm known
    exact m.determined_name ⟨_, (hnames m hm).reads⟩ fun name =>
      determined_takeField hschema (hvalues m hm) known name
  rw [if_neg harray, if_neg hobject]
  exact (local_wrongType _ hvalue).determined

/-! ## Parts -/

/-- A property of the readers of scalars that a reader has if the readers it is made up of have it. -/
structure Compositional (P : ∀ {α : Type}, Reader α → Prop) : Prop where
  count : P Reader.count
  float : P Reader.float
  optionalFloat : P Reader.optionalFloat
  text : P Reader.text
  enumerated {α : Type} (ofName? : Text → Option α) : P (Reader.enumerated ofName?)
  list {α : Type} {read : Reader α} (h : P read) : P (Reader.list read)
  pair {α β : Type} {readFirst : Reader α} {readSecond : Reader β} (hfirst : P readFirst)
    (hsecond : P readSecond) : P (Reader.pair readFirst readSecond)
  record {β : Type} {schema : List (Text × Reader β)} (h : ∀ f ∈ schema, P f.2) : P (Reader.record schema)
  /-- The result of a reader may be used or refused. -/
  check {α β : Type} {read : Reader α} (h : P read) (next : α → Reader β)
    (hnext : ∀ a, (∃ b, next a = pure b) ∨ ∃ fault, next a = throw fault) : P (read >>= next)

theorem Compositional.map {P : ∀ {α : Type}, Reader α → Prop} (hP : Compositional P) {read : Reader α}
    (h : P read) (f : α → β) : P (f <$> read) := by
  rw [map_eq_pure_bind]
  exact hP.check h _ fun a => Or.inl ⟨f a, rfl⟩

theorem compositional_local : Compositional Local where
  count := local_count
  float := local_float
  optionalFloat := local_optionalFloat
  text := local_text
  enumerated := local_enumerated
  list := local_list
  pair := local_pair
  record := local_record
  check h _ hnext := by
    refine h.bind fun a => ?_
    rcases hnext a with ⟨b, hb⟩ | ⟨fault, hfault⟩
    · rw [hb]
      exact .pure b
    · rw [hfault]
      exact .throw fault

/-! ## Records that were written -/

/-- A field of a record, as it is written, with what a reader makes of it. -/
structure RecordField (β : Type) where
  name : Text
  doc : Doc
  outcome : Except ReadError β

/-- What the fields that are known become with one more. A field that is known already is refused. -/
def RecordField.add (known : List (Text × β)) (f : RecordField β) : Except ReadError (List (Text × β)) :=
  if (known.lookup f.name).isSome then .error .badContent
  else f.outcome.map fun value => known ++ [(f.name, value)]

/-- The field is one of the schema, and it is written so that its reader can read it. -/
structure RecordField.Fits (schema : List (Text × Reader β)) (f : RecordField β) : Prop where
  isJson : IsJsonDoc f.doc
  listed : ∃ read, schema.lookup f.name = some read ∧ ∀ depth, Yields read (encode (f.doc depth)) f.outcome

theorem RecordField.Fits.takes {schema : List (Text × Reader β)} {f : RecordField β} (h : f.Fits schema)
    (depth : Nat) :
    Takes string (takeField schema) (fun f => Member.ofDoc depth f.name f.doc) RecordField.add f := by
  obtain ⟨-, read, hread, hyields⟩ := h
  refine ⟨quoted_begins f.name, ?_⟩
  intro known rest hrest
  have hname : Reads string (Member.ofDoc depth f.name f.doc).name.value (.ok f.name) :=
    reads_quoted f.name
  refine (Member.name_bind hname _ rest).trans ?_
  show takeField schema known f.name _ = _
  unfold takeField RecordField.add
  rw [hread]
  dsimp only
  split
  · rfl
  · refine (Member.value_bind (hyields depth) hrest _).trans ?_
    cases f.outcome with
    | error fault => rfl
    | ok value => rfl

/-- The value of a field under its name. -/
def RecordField.entry (f : RecordField β) : Except ReadError (Text × β) :=
  f.outcome.map fun value => (f.name, value)

/-- Fields with different names are all taken. -/
theorem foldlM_add {fields : List (RecordField β)} (hnames : (fields.map RecordField.name).Nodup)
    (known : List (Text × β)) (hknown : ∀ f ∈ fields, known.lookup f.name = none) :
    fields.foldlM RecordField.add known =
      (fields.mapM RecordField.entry).map (known ++ ·) := by
  induction fields generalizing known with
  | nil =>
    show Except.ok known = Except.ok (known ++ [])
    rw [List.append_nil]
  | cons f fields ih =>
    rw [List.map_cons, List.nodup_cons] at hnames
    rw [List.foldlM_cons, List.mapM_cons, RecordField.add, RecordField.entry, hknown f List.mem_cons_self,
      Option.isSome_none, if_neg Bool.false_ne_true]
    cases f.outcome with
    | error fault => rfl
    | ok value =>
      have hrest : ∀ g ∈ fields, (known ++ [(f.name, value)]).lookup g.name = none := by
        intro g hg
        have hne : g.name ≠ f.name := fun heq => hnames.1 (heq ▸ List.mem_map_of_mem hg)
        rw [List.lookup_append, hknown g (List.mem_cons_of_mem f hg), List.lookup_cons,
          beq_false_of_ne hne]
        rfl
      show List.foldlM RecordField.add (known ++ [(f.name, value)]) fields = _
      rw [ih hnames.2 _ hrest]
      cases fields.mapM RecordField.entry with
      | error fault => rfl
      | ok values =>
        show Except.ok (known ++ [(f.name, value)] ++ values) =
          Except.ok (known ++ (f.name, value) :: values)
        rw [List.append_assoc, List.singleton_append]

/-- **A record is read field by field.** -/
theorem yields_record {schema : List (Text × Reader β)} {fields : List (RecordField β)}
    (hnames : (fields.map RecordField.name).Nodup) (hfits : ∀ f ∈ fields, f.Fits schema) (depth : Nat) :
    Yields (record schema) (encode (object (fields.map fun f => (f.name, f.doc)) depth))
      (fields.mapM RecordField.entry) := by
  intro before rest hbefore _
  have hmembers := members_object depth (fun f hf => (hfits f hf).takes (depth + 1)) [] rest
  rw [foldlM_add hnames [] (fun _ _ => rfl)] at hmembers
  obtain ⟨tail, htail⟩ := object_head (fields.map fun f => (f.name, f.doc)) depth
  rw [htail, List.cons_append] at hmembers ⊢
  unfold record
  rw [bind_of_ok (peekByte_cons hbefore rfl _), if_neg (by decide), if_pos rfl, hmembers]
  cases fields.mapM RecordField.entry with
  | error fault => rfl
  | ok values => rfl

end PacketTrace.Json.Reader

import PacketTrace.Proofs.Json.Reader

/-!
# `Proofs.Json.Layout` — containers in any layout

White space may stand in front of every token of a container. An `Item` is a value in a container with the white
space around it, and a `Member` is a name and a value with the white space around each. What stands behind a
value in a container, up to and with the closing bracket, is `remaining`; a reader that stands at the start of a
container has a `remaining` in front of it too. So one lemma on `remaining` serves for the whole container.

The layout in which documents are written is one of these layouts (`encode_array` and `encode_object`).

## Contents
- **Items.** `Space`, `Item`, `remaining`, and what a value in a container is followed by.
- **Members.** `Member`, and a member as an item.
- **Documents.** The items of the documents that are written.
-/

namespace PacketTrace.Json.Reader

open Utf8

/-! ## Items -/

/-- White space, which may be empty. -/
structure Space where
  bytes : Bytes
  all_isSpace : bytes.all isSpace = true

def Space.empty : Space := ⟨[], rfl⟩

@[simp] theorem Space.bytes_empty : Space.empty.bytes = [] := rfl

def Space.blank : Space := ⟨[0x20], rfl⟩

/-- A value in a container, with the white space around it. -/
structure Item where
  before : Space := .empty
  value : Bytes
  after : Space := .empty

/-- What stands in front of an item: nothing at the start of a container, and behind a value the white space that
follows it and a comma. -/
def lead : Option Space → Bytes
  | none => []
  | some after => after.bytes ++ [comma]

/-- What stands in front of the closing bracket besides the gap that any container may have there. -/
def trail : Option Space → Bytes
  | none => []
  | some after => after.bytes

/-- The rest of a container at its start (`none`) or behind a value that is followed by some white space. -/
def remaining (closing : UInt8) (gap : Space) : Option Space → List Item → Bytes
  | after, [] => trail after ++ (gap.bytes ++ [closing])
  | after, i :: items => lead after ++ (i.before.bytes ++ (i.value ++ remaining closing gap (some i.after) items))

theorem ends_append (space : Space) {rest : Bytes} (hrest : Ends rest) : Ends (space.bytes ++ rest) := by
  obtain ⟨bytes, hbytes⟩ := space
  cases bytes with
  | nil => exact hrest
  | cons b bytes =>
    have hb := (List.all_eq_true.mp hbytes) b List.mem_cons_self
    apply ends_cons
    simp only [isSpace, Bool.or_eq_true, beq_iff_eq] at hb
    rcases hb with ((rfl | rfl) | rfl) | rfl <;> rfl

/-- What stands behind a value in a container continues no number. -/
theorem ends_remaining (closing : UInt8) (hclosing : continuesNumber closing = false) (gap after : Space)
    (items : List Item) (rest : Bytes) : Ends (remaining closing gap (some after) items ++ rest) := by
  cases items with
  | nil =>
    rw [remaining, trail, List.append_assoc, List.append_assoc]
    exact ends_append after (ends_append gap (ends_cons hclosing rest))
  | cons i items =>
    rw [remaining, lead, List.append_assoc, List.append_assoc]
    exact ends_append after (ends_cons (b := comma) rfl _)

/-- There are fewer items than bytes behind a value. -/
theorem length_lt_remaining (closing : UInt8) (gap after : Space) (items : List Item) :
    items.length < (remaining closing gap (some after) items).length := by
  induction items generalizing after with
  | nil =>
    simp only [remaining, List.length_append, List.length_nil, List.length_singleton]
    omega
  | cons i items ih =>
    have hrest := ih i.after
    simp only [remaining, lead, List.length_append, List.length_cons, List.length_nil]
    omega

theorem length_le_remaining (closing : UInt8) (gap : Space) (items : List Item) :
    items.length ≤ (remaining closing gap none items).length := by
  cases items with
  | nil => exact Nat.zero_le _
  | cons i items =>
    have hrest := length_lt_remaining closing gap i.after items
    simp only [remaining, List.length_append, List.length_cons]
    omega

/-! ## Members -/

/-- A member of an object: a name and a value with a colon between them. -/
structure Member where
  name : Item
  value : Item

/-- What stands behind the name of a member, up to and with its value. -/
def Member.behindName (m : Member) : Bytes :=
  m.name.after.bytes ++ colon :: (m.value.before.bytes ++ m.value.value)

/-- A member as an item of its object. -/
def Member.item (m : Member) : Item where
  before := m.name.before
  value := m.name.value ++ m.behindName
  after := m.value.after

/-! ## Documents -/

theorem all_isSpace_newLine (depth : Nat) : (encode (newLine depth)).all isSpace = true := by
  have hblanks (n : Nat) : (encode (List.replicate n ' ')).all isSpace = true := by
    induction n with
    | zero => rfl
    | succ n ih =>
      rw [List.replicate_succ, encode_cons, List.all_append, ih]
      rfl
  unfold newLine
  rw [encode_cons, List.all_append, hblanks]
  rfl

/-- The start of a line. -/
def Space.line (depth : Nat) : Space where
  bytes := encode (newLine depth)
  all_isSpace := all_isSpace_newLine depth

/-- A document on a line of its own. -/
def Item.ofDoc (depth : Nat) (doc : Doc) : Item where
  before := .line depth
  value := encode (doc depth)

/-- The gap in front of the closing bracket; a container without items has none. -/
def closingGap (depth : Nat) (docs : List Doc) : Space := if docs.isEmpty then .empty else .line depth

theorem join_cons_cons (separator piece next : Text) (others : List Text) :
    Text.join separator (piece :: next :: others) =
      piece ++ separator ++ Text.join separator (next :: others) :=
  rfl

theorem encode_join_append {closing : Char} {c : UInt8} (hclosing : String.utf8EncodeChar closing = [c])
    (depth : Nat) (doc : Doc) (docs : List Doc) :
    encode (Text.join [','] ((doc :: docs).map fun doc => newLine (depth + 1) ++ doc (depth + 1)) ++
        newLine depth ++ [closing]) =
      remaining c (.line depth) none ((doc :: docs).map (Item.ofDoc (depth + 1))) := by
  induction docs generalizing doc with
  | nil =>
    simp only [List.map_cons, List.map_nil, Text.join, encode_append, encode_cons, encode_nil, hclosing,
      remaining, lead, trail, Item.ofDoc, Space.line, Space.bytes_empty, List.append_assoc, List.nil_append,
      List.append_nil]
  | cons next docs ih =>
    have hnext := ih next
    rw [List.map_cons] at hnext
    rw [List.map_cons, List.map_cons, join_cons_cons, List.append_assoc, List.append_assoc,
      ← List.append_assoc (Text.join _ _), encode_append, encode_append, encode_append, hnext]
    simp only [List.map_cons, remaining, lead, Item.ofDoc, Space.line, List.append_assoc, List.nil_append]
    rfl

/-- **A block is a container** in one of its layouts. -/
theorem encode_block {opening closing : Char} {o c : UInt8} (hopening : String.utf8EncodeChar opening = [o])
    (hclosing : String.utf8EncodeChar closing = [c]) (docs : List Doc) (depth : Nat) :
    encode (block opening closing docs depth) =
      o :: remaining c (closingGap depth docs) none (docs.map (Item.ofDoc (depth + 1))) := by
  unfold block closingGap
  cases docs with
  | nil => simp [encode_cons, encode_nil, hopening, hclosing, remaining, trail]
  | cons doc docs =>
    rw [List.isEmpty_cons, if_neg Bool.false_ne_true, if_neg Bool.false_ne_true, encode_cons, hopening,
      encode_join_append hclosing]
    rfl

theorem encode_array (docs : List Doc) (depth : Nat) :
    encode (array docs depth) =
      openBracket :: remaining closeBracket (closingGap depth docs) none
        (docs.map (Item.ofDoc (depth + 1))) :=
  encode_block rfl rfl docs depth

/-- A member with its name and its value on a line of its own, and a blank behind the colon. -/
def Member.ofDoc (depth : Nat) (name : Text) (doc : Doc) : Member where
  name := { before := .line depth, value := encode (quoted name) }
  value := { before := .blank, value := encode (doc depth) }

theorem ofDoc_member (depth : Nat) (name : Text) (doc : Doc) :
    Item.ofDoc depth (member name doc) = (Member.ofDoc depth name doc).item := by
  have hvalue : encode (member name doc depth) = (Member.ofDoc depth name doc).item.value := by
    unfold member
    rw [encode_append, encode_append, List.append_assoc]
    rfl
  unfold Item.ofDoc
  rw [hvalue]
  rfl

theorem encode_object (members : List (Text × Doc)) (depth : Nat) :
    encode (object members depth) =
      openBrace :: remaining closeBrace (closingGap depth (members.map fun m => member m.1 m.2)) none
        (members.map fun m => (Member.ofDoc (depth + 1) m.1 m.2).item) := by
  unfold object
  rw [encode_block (o := openBrace) (c := closeBrace) rfl rfl, List.map_map]
  simp only [Function.comp_def, ofDoc_member]

end PacketTrace.Json.Reader

import PacketTrace.Proofs.Json.Container
import PacketTrace.Proofs.Json.Numeral

/-!
# `Proofs.Json.Value` — the grammar of JSON

`IsJson` describes the values of JSON as bytes, in any layout: the words, the numbers, the strings, and the
containers of values. What a string says is not a question of grammar, so its bytes need not be well-formed text
and surrogates may stand alone in it. What a value is can be told from its first byte.

## Contents
- **Strings.** `IsString`, and what readers of strings make of one.
- **Values.** `IsJson`, and what the first byte tells.
- **Objects.** `JsonObject`, a text that is an object.
-/

namespace PacketTrace.Json.Reader

open Utf8

variable {α : Type}

/-! ## Strings -/

/-- What stands behind the opening quote of a string, up to and with the closing one. -/
inductive IsStringEnd : Bytes → Prop where
  | close : IsStringEnd [quote]
  | plain {b : UInt8} {rest : Bytes} (hplain : IsPlain b) (h : IsStringEnd rest) : IsStringEnd (b :: rest)
  | escape {letter c : UInt8} {rest : Bytes} (hletter : escaped? letter = some c) (h : IsStringEnd rest) :
      IsStringEnd (backslash :: letter :: rest)
  | hex {a b c d : UInt8} {n : Nat} {rest : Bytes} (hfour : fourHex? [d, c, b, a] = some n)
      (h : IsStringEnd rest) : IsStringEnd (backslash :: lowerU :: a :: b :: c :: d :: rest)

/-- **What a string is.** -/
inductive IsString : Bytes → Prop where
  | mk {rest : Bytes} (h : IsStringEnd rest) : IsString (quote :: rest)

theorem IsString.begins {token : Bytes} (h : IsString token) : ∃ tail, token = quote :: tail := by
  cases h with
  | mk h => exact ⟨_, rfl⟩

/-- Four digits give characters, or the second half of a pair is due. -/
theorem fromHex_cases {n : Nat} {high : Option Nat} {state : StringState} {bytes : Bytes}
    (h : fromHex n high = .ok (state, bytes)) : state = .plain ∨ ∃ first, state = .backslashDue first := by
  unfold fromHex at h
  cases high with
  | none =>
    dsimp only at h
    split at h
    · cases h
    split at h
    · cases h
      exact Or.inr ⟨n, rfl⟩
    · cases h
      exact Or.inl rfl
  | some first =>
    dsimp only at h
    split at h
    · cases h
      exact Or.inl rfl
    · cases h

/-- Four digits in the middle of a string are read with what is behind them. -/
theorem determined_hex {a b c d : UInt8} {n : Nat} {tail : Bytes} (hfour : fourHex? [d, c, b, a] = some n)
    (h : ∀ read, Determined (stringBytes read .plain) tail ∧
      ∀ first, Determined (stringBytes read (.backslashDue first)) tail) (read : Bytes) (high : Option Nat) :
    Determined (stringBytes read (.hex [] high)) (a :: b :: c :: d :: tail) := by
  cases hhex : fromHex n high with
  | error fault =>
    exact ⟨.error fault, fun rest _ => stringBytes_hex_error hfour hhex read (tail ++ rest)⟩
  | ok result =>
    obtain ⟨state, bytes⟩ := result
    have hread : Determined (stringBytes (bytes.reverse ++ read) state) tail := by
      rcases fromHex_cases hhex with rfl | ⟨first, rfl⟩
      · exact (h _).1
      · exact (h _).2 first
    obtain ⟨outcome, hread⟩ := hread
    exact ⟨outcome, fun rest hrest =>
      (stringBytes_hex hfour hhex read (tail ++ rest)).trans (hread rest hrest)⟩

/-- A string gives bytes or has a fault, whatever stands behind it; so it does if the second half of a pair is
due where it goes on. -/
theorem IsStringEnd.determined {body : Bytes} (h : IsStringEnd body) (read : Bytes) :
    Determined (stringBytes read .plain) body ∧
      ∀ first, Determined (stringBytes read (.backslashDue first)) body := by
  -- Both parts are proved together, since a high surrogate passes from the first to the second.
  induction h generalizing read with
  | close => exact ⟨⟨.ok read.reverse, fun _ _ => rfl⟩, fun _ => ⟨.error .badGrammar, fun _ _ => rfl⟩⟩
  | plain hplain h ih =>
    constructor
    · obtain ⟨outcome, hread⟩ := (ih _).1
      refine ⟨outcome, fun rest hrest => ?_⟩
      rw [List.cons_append, stringBytes_plain hplain]
      exact hread rest hrest
    · intro first
      refine ⟨.error .badGrammar, fun rest _ => ?_⟩
      rw [List.cons_append, stringBytes, if_neg hplain.ne_backslash]
      rfl
  | @escape letter c tail hletter h ih =>
    constructor
    · obtain ⟨outcome, hread⟩ := (ih (c :: read)).1
      refine ⟨outcome, fun rest hrest => ?_⟩
      exact (stringBytes_letter hletter read (tail ++ rest)).trans (hread rest hrest)
    · intro first
      have hne : letter ≠ lowerU := by
        rintro rfl
        cases hletter
      refine ⟨.error .badGrammar, fun rest _ => ?_⟩
      rw [List.cons_append, List.cons_append, stringBytes, if_pos rfl, stringBytes, if_neg hne]
      rfl
  | @hex a b c d n tail hfour h ih =>
    constructor
    · obtain ⟨outcome, hread⟩ := determined_hex hfour ih read none
      refine ⟨outcome, fun rest hrest => ?_⟩
      rw [← hread rest hrest]
      rfl
    · intro first
      obtain ⟨outcome, hread⟩ := determined_hex hfour ih read (some first)
      refine ⟨outcome, fun rest hrest => ?_⟩
      rw [← hread rest hrest]
      rfl

/-- A string is read, with a fault if it is no text. -/
theorem IsString.determined {token : Bytes} (h : IsString token) : Determined string token := by
  obtain ⟨h⟩ := h
  rename_i body
  obtain ⟨outcome, hread⟩ := (h.determined []).1
  cases outcome with
  | error fault =>
    refine ⟨.error fault, fun rest hrest => ?_⟩
    unfold string
    rw [List.cons_append, bind_of_ok (skip_cons quote _)]
    exact bind_of_error (hread rest hrest)
  | ok bytes =>
    cases htext : decode? bytes with
    | none =>
      refine ⟨.error .badGrammar, fun rest hrest => ?_⟩
      unfold string
      rw [List.cons_append, bind_of_ok (skip_cons quote _), bind_of_ok (hread rest hrest), htext]
      rfl
    | some t =>
      refine ⟨.ok t, fun rest hrest => ?_⟩
      unfold string
      rw [List.cons_append, bind_of_ok (skip_cons quote _), bind_of_ok (hread rest hrest), htext]
      rfl

theorem IsString.reads {token : Bytes} (h : IsString token) : Reads string token (whole string token) :=
  h.determined.reads

theorem IsStringEnd.after {body : Bytes} (h : IsStringEnd body) (rest : Bytes) :
    afterString .plain (body ++ rest) = .ok rest := by
  induction h with
  | close => rfl
  | plain hplain h ih =>
    rw [List.cons_append, afterString, if_neg hplain.ne_quote, if_neg hplain.ne_backslash,
      if_neg (UInt8.not_lt.mpr hplain.no_control), ih]
  | @escape letter c tail hletter h ih =>
    rw [List.cons_append, List.cons_append, afterString, if_neg (by decide), if_pos rfl, afterString,
      hletter, Option.isSome_some, if_pos rfl, ih]
  | hex hfour h ih =>
    have hletter : (escaped? lowerU).isSome = false := rfl
    have hquote : backslash ≠ quote := by decide
    simp [afterString, hfour, hletter, hquote, ih]

theorem IsStringEnd.append {bytes body : Bytes} (hbytes : ∀ b ∈ bytes, IsPlain b) (h : IsStringEnd body) :
    IsStringEnd (bytes ++ body) := by
  induction bytes with
  | nil => exact h
  | cons b bytes ih =>
    exact .plain (hbytes b List.mem_cons_self) (ih fun c hc => hbytes c (List.mem_cons_of_mem b hc))

theorem IsStringEnd.escape_append (c : Char) {body : Bytes} (h : IsStringEnd body) :
    IsStringEnd (encode (Json.escape c) ++ body) := by
  have hform := charForm_escape c
  generalize encode (Json.escape c) = bytes at hform ⊢
  cases hform with
  | letter hletter _ => exact .escape hletter h
  | control hcontrol => exact .hex (fourHex?_control _ hcontrol) h
  | plain hplain => exact h.append hplain

/-- What is written as a string is one. -/
theorem isString_quoted (t : Text) : IsString (encode (quoted t)) := by
  have hbody : IsStringEnd (encode (t.flatMap Json.escape) ++ [quote]) := by
    induction t with
    | nil => exact .close
    | cons c t ih =>
      rw [List.flatMap_cons, encode_append, List.append_assoc]
      exact ih.escape_append c
  unfold quoted
  rw [encode_append, encode_cons, List.append_assoc]
  exact .mk hbody

/-- Any string can be passed over. -/
theorem IsString.reads_skipString {token : Bytes} (h : IsString token) :
    Reads skipString token (.ok ()) := by
  obtain ⟨h⟩ := h
  intro rest _
  unfold skipString
  rw [List.cons_append, bind_of_ok (skip_cons quote _), h.after]
  rfl

/-! ## Values -/

/-- The words that are values. -/
def IsWord (w : String) : Prop := w = "null" ∨ w = "true" ∨ w = "false"

/-- **What a value is.** -/
inductive IsJson : Bytes → Prop where
  | word {w : String} (h : IsWord w) : IsJson (ascii w)
  | number {n : Numeral} {bytes : Bytes} (h : n.WrittenAs bytes) : IsJson bytes
  | string {token : Bytes} (h : IsString token) : IsJson token
  | array (gap : Space) {items : List Item} (h : ∀ i ∈ items, IsJson i.value) :
      IsJson (openBracket :: remaining closeBracket gap none items)
  | object (gap : Space) {members : List Member} (hnames : ∀ m ∈ members, IsString m.name.value)
      (hvalues : ∀ m ∈ members, IsJson m.value.value) :
      IsJson (openBrace :: remaining closeBrace gap none (members.map Member.item))

/-- What the first byte of a value tells about the value. -/
inductive Head : UInt8 → Bytes → Prop where
  | word {b : UInt8} {tail : Bytes} (w : String) (h : IsWord w) (hw : ascii w = b :: tail) : Head b tail
  | number {b : UInt8} {tail : Bytes} (hstarts : startsNumber b = true) (hspace : isSpace b = false)
      (n : Numeral) (h : n.WrittenAs (b :: tail)) : Head b tail
  | string {tail : Bytes} (h : IsString (quote :: tail)) : Head quote tail
  | array (gap : Space) {items : List Item} (h : ∀ i ∈ items, IsJson i.value) :
      Head openBracket (remaining closeBracket gap none items)
  | object (gap : Space) {members : List Member} (hnames : ∀ m ∈ members, IsString m.name.value)
      (hvalues : ∀ m ∈ members, IsJson m.value.value) :
      Head openBrace (remaining closeBrace gap none (members.map Member.item))

theorem IsJson.head {value : Bytes} (h : IsJson value) : ∃ b tail, value = b :: tail ∧ Head b tail := by
  cases h with
  | @word w h =>
    rcases h with rfl | rfl | rfl
    · exact ⟨_, _, rfl, .word "null" (Or.inl rfl) rfl⟩
    · exact ⟨_, _, rfl, .word "true" (Or.inr (Or.inl rfl)) rfl⟩
    · exact ⟨_, _, rfl, .word "false" (Or.inr (Or.inr rfl)) rfl⟩
  | number h =>
    obtain ⟨b, tail, rfl, hstarts, hspace⟩ := h.begins
    exact ⟨b, tail, rfl, .number hstarts hspace _ h⟩
  | string h =>
    obtain ⟨tail, rfl⟩ := h.begins
    exact ⟨quote, tail, rfl, .string h⟩
  | array gap h => exact ⟨_, _, rfl, .array gap h⟩
  | object gap hnames hvalues => exact ⟨_, _, rfl, .object gap hnames hvalues⟩

/-- The bytes that a word may begin with. -/
theorem IsWord.first {w : String} (h : IsWord w) {b : UInt8} {tail : Bytes} (hw : ascii w = b :: tail) :
    b = lowerN ∨ b = lowerT ∨ b = lowerF := by
  rcases h with rfl | rfl | rfl
  · cases hw
    exact Or.inl rfl
  · cases hw
    exact Or.inr (Or.inl rfl)
  · cases hw
    exact Or.inr (Or.inr rfl)

/-- A value begins with its own byte, and that byte closes no container. -/
theorem Head.first {b : UInt8} {tail : Bytes} (h : Head b tail) : isSpace b = false ∧ b ≠ closeBracket := by
  cases h with
  | word w h hw =>
    rcases h.first hw with rfl | rfl | rfl
    · exact ⟨rfl, by decide⟩
    · exact ⟨rfl, by decide⟩
    · exact ⟨rfl, by decide⟩
  | number hstarts hspace n h =>
    refine ⟨hspace, ?_⟩
    rintro rfl
    cases hstarts
  | string h => exact ⟨rfl, by decide⟩
  | array gap h => exact ⟨rfl, by decide⟩
  | object gap hnames hvalues => exact ⟨rfl, by decide⟩

theorem IsJson.begins {value : Bytes} (h : IsJson value) : Begins value := by
  obtain ⟨b, tail, hvalue, hhead⟩ := h.head
  exact ⟨b, tail, hvalue, hhead.first⟩

theorem IsJson.head_cons {b : UInt8} {tail : Bytes} (h : IsJson (b :: tail)) : Head b tail := by
  obtain ⟨c, rest, heq, hhead⟩ := h.head
  cases heq
  exact hhead

/-- A value that begins with a quote is a string. -/
theorem IsJson.isString {tail : Bytes} (h : IsJson (quote :: tail)) : IsString (quote :: tail) := by
  generalize hb : quote = b at h ⊢
  cases h.head_cons with
  | word w h hw => rcases h.first hw with rfl | rfl | rfl <;> cases hb
  | number hstarts =>
    subst hb
    cases hstarts
  | string h => exact h
  | array => cases hb
  | object => cases hb

/-- A value that begins like a number is one. -/
theorem IsJson.exists_numeral {b : UInt8} {tail : Bytes} (h : IsJson (b :: tail))
    (hb : startsNumber b = true) : ∃ n : Numeral, n.WrittenAs (b :: tail) := by
  cases h.head_cons with
  | word w h hw => rcases h.first hw with rfl | rfl | rfl <;> cases hb
  | number _ _ n h => exact ⟨n, h⟩
  | string => cases hb
  | array => cases hb
  | object => cases hb

/-- A value that begins with a bracket is an array. -/
theorem IsJson.exists_items {tail : Bytes} (h : IsJson (openBracket :: tail)) :
    ∃ gap, ∃ items : List Item,
      tail = remaining closeBracket gap none items ∧ ∀ i ∈ items, IsJson i.value := by
  generalize hb : openBracket = b at h
  cases h.head_cons with
  | word w h hw => rcases h.first hw with rfl | rfl | rfl <;> cases hb
  | number hstarts =>
    subst hb
    cases hstarts
  | string => cases hb
  | array gap hitems => exact ⟨gap, _, rfl, hitems⟩
  | object => cases hb

/-- A value that begins with a brace is an object. -/
theorem IsJson.exists_members {tail : Bytes} (h : IsJson (openBrace :: tail)) :
    ∃ gap, ∃ members : List Member, tail = remaining closeBrace gap none (members.map Member.item) ∧
      (∀ m ∈ members, IsString m.name.value) ∧ ∀ m ∈ members, IsJson m.value.value := by
  generalize hb : openBrace = b at h
  cases h.head_cons with
  | word w h hw => rcases h.first hw with rfl | rfl | rfl <;> cases hb
  | number hstarts =>
    subst hb
    cases hstarts
  | string => cases hb
  | array => cases hb
  | object gap hnames hvalues => exact ⟨gap, _, rfl, hnames, hvalues⟩

/-- A value that begins with the letter n is `null`. -/
theorem IsJson.eq_null {tail : Bytes} (h : IsJson (lowerN :: tail)) : lowerN :: tail = ascii "null" := by
  generalize hb : lowerN = b at h ⊢
  cases h.head_cons with
  | word w h hw =>
    rcases h with rfl | rfl | rfl
    · exact hw.symm
    · cases hw
      cases hb
    · cases hw
      cases hb
  | number hstarts =>
    subst hb
    cases hstarts
  | string => cases hb
  | array => cases hb
  | object => cases hb

/-! ## Documents -/

/-- A document is laid out as a value at any depth. -/
def IsJsonDoc (doc : Doc) : Prop := ∀ depth, IsJson (encode (doc depth))

theorem isJson_ofText (t : Text) : IsJsonDoc (ofText t) := fun _ => .string (isString_quoted t)

theorem isJson_ofCount (n : Nat) : IsJsonDoc (ofCount n) := by
  intro depth
  rw [← Numeral.bytes_ofCount n depth]
  exact .number (Numeral.wellFormed_ofCount n).writtenAs

theorem isJson_array {docs : List Doc} (h : ∀ doc ∈ docs, IsJsonDoc doc) : IsJsonDoc (array docs) := by
  intro depth
  rw [encode_array]
  apply IsJson.array
  rw [List.forall_mem_map]
  exact fun doc hdoc => h doc hdoc (depth + 1)

theorem isString_ofDoc (depth : Nat) (members : List (Text × Doc)) :
    ∀ m ∈ members.map fun m => Member.ofDoc depth m.1 m.2, IsString m.name.value :=
  List.forall_mem_map.mpr fun m _ => isString_quoted m.1

theorem isJson_ofDoc (depth : Nat) {members : List (Text × Doc)} (h : ∀ m ∈ members, IsJsonDoc m.2) :
    ∀ m ∈ members.map fun m => Member.ofDoc depth m.1 m.2, IsJson m.value.value :=
  List.forall_mem_map.mpr fun m hm => h m hm depth

theorem isJson_object {members : List (Text × Doc)} (h : ∀ m ∈ members, IsJsonDoc m.2) :
    IsJsonDoc (object members) := by
  intro depth
  have hobject := encode_object members depth
  rw [← Function.comp_def Member.item, ← List.map_map] at hobject
  rw [hobject]
  exact .object _ (isString_ofDoc _ members) (isJson_ofDoc _ h)

/-! ## Objects -/

/-- **A text that is an object.** -/
structure JsonObject where
  before : Space := .empty
  members : List Member
  gap : Space := .empty
  after : Space := .empty
  isString : ∀ m ∈ members, IsString m.name.value
  isJson : ∀ m ∈ members, IsJson m.value.value

/-- The object itself. -/
def JsonObject.value (o : JsonObject) : Bytes :=
  openBrace :: remaining closeBrace o.gap none (o.members.map Member.item)

/-- The bytes of the text. -/
def JsonObject.bytes (o : JsonObject) : Bytes := o.before.bytes ++ (o.value ++ o.after.bytes)

theorem JsonObject.isJson_value (o : JsonObject) : IsJson o.value := .object o.gap o.isString o.isJson

/-- A member without white space between its tokens. -/
def Member.tight (name : Text) (value : Bytes) : Member where
  name := { value := encode (quoted name) }
  value := { value }

theorem isString_tight (members : List (Text × Bytes)) :
    ∀ m ∈ members.map fun m => Member.tight m.1 m.2, IsString m.name.value :=
  List.forall_mem_map.mpr fun m _ => isString_quoted m.1

theorem isJson_tight {members : List (Text × Bytes)} (h : ∀ m ∈ members, IsJson m.2) :
    ∀ m ∈ members.map fun m => Member.tight m.1 m.2, IsJson m.value.value :=
  List.forall_mem_map.mpr h

/-- An object without white space between its tokens. -/
def JsonObject.tight (members : List (Text × Bytes)) (h : ∀ m ∈ members, IsJson m.2) : JsonObject where
  members := members.map fun m => .tight m.1 m.2
  isString := isString_tight members
  isJson := isJson_tight h

/-- The text that is written for an object. -/
def JsonObject.ofDocs (members : List (Text × Doc)) (h : ∀ m ∈ members, IsJsonDoc m.2) : JsonObject where
  members := members.map fun m => .ofDoc 1 m.1 m.2
  gap := closingGap 0 (members.map fun m => member m.1 m.2)
  isString := isString_ofDoc 1 members
  isJson := isJson_ofDoc 1 h

theorem JsonObject.bytes_ofDocs (members : List (Text × Doc)) (h : ∀ m ∈ members, IsJsonDoc m.2) :
    (ofDocs members h).bytes = encode (object members 0) := by
  show [] ++ ((ofDocs members h).value ++ []) = _
  rw [List.nil_append, List.append_nil, encode_object]
  unfold value ofDocs
  rw [List.map_map]
  rfl

end PacketTrace.Json.Reader

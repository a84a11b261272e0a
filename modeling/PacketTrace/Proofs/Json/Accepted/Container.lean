import PacketTrace.Proofs.Json.Accepted.Value
import PacketTrace.Proofs.Json.Record

/-!
# `Proofs.Json.Accepted.Container` — containers that are accepted

A reader that is in the middle of a container has read some of its items. If it succeeds in the end, what it had in
front of it closes the container (`Closes`): there are white space, items with commas between them, and the closing
bracket. This holds at the closing bracket, and it holds in front of an item if it holds behind it.

## Contents
- **Arrays.** `Closes`, lists, pairs and arrays of fields.
- **Objects.** Members, and names out of an enumeration.
- **Any value.** `accepts_skipValue`.
- **Records.** `accepts_record`, and `compositional_accepts` for the readers that are made up of all these.
-/

namespace PacketTrace.Json.Reader

variable {α β σ : Type}

/-! ## Arrays -/

/-- Some bytes are what a container still has, up to its closing bracket, and what stands behind it. -/
def Closes (closing : UInt8) (IsItem : Bytes → Prop) (first : Bool) (input rest : Bytes) : Prop :=
  ∃ after gap items, after.isNone = first ∧ input = remaining closing gap after items ++ rest ∧
    ∀ i ∈ items, IsItem i.value

theorem closes_nil {closing : UInt8} {IsItem : Bytes → Prop} (space : Space) (first : Bool) (rest : Bytes) :
    Closes closing IsItem first (space.bytes ++ closing :: rest) rest := by
  cases first with
  | true =>
    refine ⟨none, space, [], rfl, ?_, fun _ h => nomatch h⟩
    rw [remaining, trail, List.nil_append, List.append_assoc, List.singleton_append]
  | false =>
    refine ⟨some space, .empty, [], rfl, ?_, fun _ h => nomatch h⟩
    rw [remaining, trail, Space.bytes_empty, List.nil_append, List.append_assoc, List.singleton_append]

theorem closes_cons {closing : UInt8} {IsItem : Bytes → Prop} {value : Bytes} (hvalue : IsItem value)
    {behind rest : Bytes} (h : Closes closing IsItem false behind rest) (after : Option Space)
    (before : Space) :
    Closes closing IsItem after.isNone (lead after ++ (before.bytes ++ (value ++ behind))) rest := by
  obtain ⟨behindValue, gap, items, hnone, rfl, hitems⟩ := h
  cases behindValue with
  | none => cases hnone
  | some space =>
    refine ⟨after, gap, { before, value, after := space } :: items, rfl, ?_, ?_⟩
    · rw [remaining, List.append_assoc, List.append_assoc, List.append_assoc]
    · exact List.forall_mem_cons.mpr ⟨hvalue, hitems⟩

/-- If there is one more item, white space stands in front of it, and a comma unless it is the first one. If there
is none, the array is closed. -/
theorem hasItem_eq_ok {first more : Bool} {input behind : Bytes}
    (h : hasItem first input = .ok (more, behind)) :
    (more = true ∧ ∃ after : Option Space, ∃ space : Space, after.isNone = first ∧
        input = lead after ++ (space.bytes ++ behind)) ∨
      (more = false ∧ ∃ space : Space, ∃ tail,
        input = space.bytes ++ behind ∧ behind = closeBracket :: tail) := by
  obtain ⟨b, behind₁, hpeek, hb⟩ := exists_of_bind h
  obtain ⟨space, tail, hinput, rfl, -⟩ := peekByte_eq_ok hpeek
  by_cases hclose : b = closeBracket
  · rw [if_pos hclose] at hb
    cases hb
    exact Or.inr ⟨rfl, space, tail, hinput, congrArg (· :: tail) hclose⟩
  rw [if_neg hclose] at hb
  cases first with
  | true =>
    cases hb
    exact Or.inl ⟨rfl, none, space, rfl, hinput⟩
  | false =>
    rw [if_neg Bool.false_ne_true] at hb
    by_cases hcomma : b = comma
    · rw [if_pos hcomma, bind_of_ok (skip_cons b tail)] at hb
      -- A bracket right behind the comma is refused, so there is an item.
      obtain ⟨c, behind₂, hpeek₂, hc⟩ := exists_of_bind hb
      obtain ⟨space₂, tail₂, rfl, rfl, -⟩ := peekByte_eq_ok hpeek₂
      by_cases hclose₂ : c = closeBracket
      · rw [if_pos hclose₂] at hc
        cases hc
      · rw [if_neg hclose₂] at hc
        cases hc
        refine Or.inl ⟨rfl, some space, space₂, rfl, ?_⟩
        rw [hinput, hcomma, lead, List.append_assoc, List.singleton_append]
    · rw [if_neg hcomma] at hb
      cases hb

/-- The next item is a value, and the container goes on behind it. -/
theorem item?_eq_some {read : Reader α} (hread : Accepts read) {first : Bool} {input behind rest : Bytes} {a : α}
    (h : item? first read input = .ok (some a, behind)) (hrest : Closes closeBracket IsJson false behind rest) :
    Closes closeBracket IsJson first input rest := by
  obtain ⟨more, behind₁, hmore, hitem⟩ := exists_of_bind h
  rcases hasItem_eq_ok hmore with ⟨rfl, after, space, rfl, rfl⟩ | ⟨rfl, -⟩
  · rw [if_pos rfl] at hitem
    obtain ⟨before, _, hvalue, value, rfl, hjson⟩ := (hread.map some).of_space space hitem
    rw [hvalue]
    exact closes_cons hjson hrest after before
  · cases hitem

theorem item?_eq_none {read : Reader α} {first : Bool} {input behind : Bytes}
    (h : item? first read input = .ok (none, behind)) :
    ∃ space : Space, ∃ tail, input = space.bytes ++ behind ∧ behind = closeBracket :: tail := by
  obtain ⟨more, behind₁, hmore, hitem⟩ := exists_of_bind h
  rcases hasItem_eq_ok hmore with ⟨rfl, -⟩ | ⟨rfl, hclosed⟩
  · rw [if_pos rfl] at hitem
    obtain ⟨a, -, ha⟩ := exists_of_map hitem
    cases ha
  · cases hitem
    exact hclosed

theorem item_eq_ok {read : Reader α} (hread : Accepts read) {first : Bool} {input behind rest : Bytes} {a : α}
    (h : item first read input = .ok (a, behind)) (hrest : Closes closeBracket IsJson false behind rest) :
    Closes closeBracket IsJson first input rest := by
  obtain ⟨found, behind', hitem, hfound⟩ := exists_of_bind h
  cases found with
  | none => cases hfound
  | some a =>
    cases hfound
    exact item?_eq_some hread hitem hrest

theorem endArray_eq_ok (first : Bool) {input rest : Bytes} (h : endArray input = .ok ((), rest)) :
    Closes closeBracket IsJson first input rest := by
  obtain ⟨space, tail, rfl, hskip⟩ := expected_eq_ok h
  cases hskip
  exact closes_nil space first tail

/-- An array that is closed is a value. -/
theorem Closes.array {tail rest : Bytes} (h : Closes closeBracket IsJson true tail rest) :
    IsValueThen (openBracket :: tail) rest := by
  obtain ⟨after, gap, items, hnone, rfl, hitems⟩ := h
  cases after with
  | none => exact ⟨_, rfl, .array gap hitems⟩
  | some space => cases hnone

theorem items_eq_ok {read : Reader α} (hread : Accepts read) {fuel : Nat} {first : Bool} {before as : List α}
    {input rest : Bytes} (h : items read fuel first before input = .ok (as, rest)) :
    Closes closeBracket IsJson first input rest := by
  -- The induction is on the fuel: the items behind the first one close the array, and so do all of them.
  induction fuel generalizing first before input with
  | zero => cases h
  | succ fuel ih =>
    obtain ⟨found, behind, hitem, hothers⟩ := exists_of_bind h
    cases found with
    | some a => exact item?_eq_some hread hitem (ih hothers)
    | none =>
      obtain ⟨space, tail, rfl, rfl⟩ := item?_eq_none hitem
      cases hothers
      exact closes_nil space first tail

/-- A reader that expects arrays. -/
theorem accepts_array {read : Reader α}
    (h : ∀ tail rest a, read tail = .ok (a, rest) → Closes closeBracket IsJson true tail rest) :
    Accepts (do if (← peekByte) = openBracket then (do skip; read) else wrongType) := by
  apply accepts_or_wrongType (p := (· = openBracket))
  rintro b tail rest a rfl hread
  rw [bind_of_ok (skip_cons _ _)] at hread
  exact (h tail rest a hread).array

theorem accepts_list {read : Reader α} (hread : Accepts read) : Accepts (list read) :=
  accepts_array fun _ _ _ h => items_eq_ok hread h

theorem accepts_pair {readFirst : Reader α} {readSecond : Reader β} (hfirst : Accepts readFirst)
    (hsecond : Accepts readSecond) : Accepts (pair readFirst readSecond) := by
  unfold pair
  refine accepts_array fun tail rest p h => ?_
  obtain ⟨a, behind, ha, hbehind⟩ := exists_of_bind h
  obtain ⟨b, behind', hb, hbehind'⟩ := exists_of_bind hbehind
  obtain ⟨_, behind'', hend, hresult⟩ := exists_of_bind hbehind'
  cases hresult
  exact item_eq_ok hfirst ha (item_eq_ok hsecond hb (endArray_eq_ok false hend))

theorem fieldsInOrder_eq_ok {schema : List (Text × Reader β)} (hschema : ∀ f ∈ schema, Accepts f.2)
    {first : Bool} {fields : List (Text × β)} {input rest : Bytes}
    (h : fieldsInOrder first schema input = .ok (fields, rest)) :
    Closes closeBracket IsJson first input rest := by
  induction schema generalizing first fields input with
  | nil =>
    obtain ⟨_, behind, hend, hresult⟩ := exists_of_bind h
    cases hresult
    exact endArray_eq_ok first hend
  | cons f schema ih =>
    obtain ⟨value, behind, hitem, hbehind⟩ := exists_of_bind h
    obtain ⟨others, behind', hothers, hresult⟩ := exists_of_bind hbehind
    cases hresult
    obtain ⟨hf, hschema⟩ := List.forall_mem_cons.mp hschema
    exact item_eq_ok hf hitem (ih hschema hothers)

/-! ## Objects -/

/-- A member of an object without the white space around it. -/
def IsMember (bytes : Bytes) : Prop :=
  ∃ m : Member, bytes = m.item.value ∧ IsString m.name.value ∧ IsJson m.value.value

/-- A reader of names takes a string. -/
def AcceptsName (name : Reader β) : Prop :=
  ∀ tail rest t, name (quote :: tail) = .ok (t, rest) →
    ∃ token, quote :: tail = token ++ rest ∧ IsString token

/-- What follows a name is a colon and a value. -/
def AcceptsMember (take : σ → Text → Reader σ) : Prop :=
  ∀ known name input rest next, take known name input = .ok (next, rest) →
    ∃ after before : Space, ∃ value, input = after.bytes ++ colon :: (before.bytes ++ (value ++ rest)) ∧
      IsJson value

/-- If there is one more member, white space stands in front of it, and a comma unless it is the first one. If
there is none, the object is closed. -/
theorem hasMember_eq_ok {first more : Bool} {input behind : Bytes}
    (h : hasMember first input = .ok (more, behind)) :
    (more = true ∧ ∃ after : Option Space, ∃ space : Space, ∃ tail, after.isNone = first ∧
        input = lead after ++ (space.bytes ++ behind) ∧ behind = quote :: tail) ∨
      (more = false ∧ ∃ space : Space, ∃ tail,
        input = space.bytes ++ behind ∧ behind = closeBrace :: tail) := by
  obtain ⟨b, behind₁, hpeek, hb⟩ := exists_of_bind h
  obtain ⟨space, tail, hinput, rfl, -⟩ := peekByte_eq_ok hpeek
  by_cases hclose : b = closeBrace
  · rw [if_pos hclose] at hb
    cases hb
    exact Or.inr ⟨rfl, space, tail, hinput, congrArg (· :: tail) hclose⟩
  rw [if_neg hclose] at hb
  cases first with
  | true =>
    rw [if_pos rfl] at hb
    by_cases hquote : b = quote
    · rw [if_pos hquote] at hb
      cases hb
      exact Or.inl ⟨rfl, none, space, tail, rfl, hinput, congrArg (· :: tail) hquote⟩
    · rw [if_neg hquote] at hb
      cases hb
  | false =>
    rw [if_neg Bool.false_ne_true] at hb
    by_cases hcomma : b = comma
    · rw [if_pos hcomma, bind_of_ok (skip_cons b tail)] at hb
      obtain ⟨space₂, tail₂, rfl, hmore⟩ := expected_eq_ok hb
      cases hmore
      refine Or.inl ⟨rfl, some space, space₂, tail₂, rfl, ?_, rfl⟩
      rw [hinput, hcomma, lead, List.append_assoc, List.singleton_append]
    · rw [if_neg hcomma] at hb
      cases hb

theorem separator_eq_ok {input behind : Bytes} (h : separator input = .ok ((), behind)) :
    ∃ space : Space, input = space.bytes ++ colon :: behind := by
  obtain ⟨space, tail, rfl, hskip⟩ := expected_eq_ok h
  cases hskip
  exact ⟨space, rfl⟩

/-- A colon, and then a value. -/
theorem separator_bind_eq_ok {read : Reader α} (hread : Accepts read) {next : α → Reader β}
    (hnext : ∀ a, TakesNothing (next a)) {input rest : Bytes} {b : β}
    (h : (separator >>= fun _ => read >>= next) input = .ok (b, rest)) :
    ∃ after before : Space, ∃ value, input = after.bytes ++ colon :: (before.bytes ++ (value ++ rest)) ∧
      IsJson value := by
  obtain ⟨_, behind, hseparator, hvalue⟩ := exists_of_bind h
  obtain ⟨after, rfl⟩ := separator_eq_ok hseparator
  obtain ⟨before, _, rfl, value, rfl, hjson⟩ := hread.bind hnext _ _ _ hvalue
  exact ⟨after, before, value, rfl, hjson⟩

/-- A member with its white space, and what stands behind it in the object. -/
theorem closes_member {token value : Bytes} (hstring : IsString token) (hjson : IsJson value)
    {behind rest : Bytes} (h : Closes closeBrace IsMember false behind rest) (behindLast : Option Space)
    (space after before : Space) :
    Closes closeBrace IsMember behindLast.isNone (lead behindLast ++
      (space.bytes ++ (token ++ (after.bytes ++ colon :: (before.bytes ++ (value ++ behind)))))) rest := by
  let m : Member := { name := { value := token, after }, value := { before, value } }
  have hm : IsMember m.item.value := ⟨m, rfl, hstring, hjson⟩
  have hclosed := closes_cons hm h behindLast space
  simp only [m, Member.item, Member.behindName, List.append_assoc, List.cons_append] at hclosed
  exact hclosed

theorem membersFrom_eq_ok {name : Reader Text} (hname : AcceptsName name) {take : σ → Text → Reader σ}
    (htake : AcceptsMember take) {fuel : Nat} {first : Bool} {known result : σ} {input rest : Bytes}
    (h : membersFrom name take fuel first known input = .ok (result, rest)) :
    Closes closeBrace IsMember first input rest := by
  induction fuel generalizing first known input with
  | zero => cases h
  | succ fuel ih =>
    obtain ⟨more, behind, hmore, hbehind⟩ := exists_of_bind h
    rcases hasMember_eq_ok hmore with
      ⟨rfl, behindLast, space, tail, rfl, rfl, rfl⟩ | ⟨rfl, space, tail, rfl, rfl⟩
    · obtain ⟨key, behind₁, hkey, hbehind₁⟩ := exists_of_bind hbehind
      obtain ⟨next, behind₂, hnext, hothers⟩ := exists_of_bind hbehind₁
      obtain ⟨token, htoken, hstring⟩ := hname _ _ _ hkey
      obtain ⟨after, before, value, rfl, hjson⟩ := htake _ _ _ _ _ hnext
      rw [htoken]
      exact closes_member hstring hjson (ih hothers) behindLast space after before
    · cases hbehind
      exact closes_nil space first tail

/-- Members and the white space around them. -/
theorem exists_members {items : List Item} (h : ∀ i ∈ items, IsMember i.value) :
    ∃ members : List Member, items = members.map Member.item ∧ (∀ m ∈ members, IsString m.name.value) ∧
      ∀ m ∈ members, IsJson m.value.value := by
  induction items with
  | nil => exact ⟨[], rfl, List.forall_mem_nil _, List.forall_mem_nil _⟩
  | cons i items ih =>
    -- The white space around the item becomes that in front of the name and behind the value.
    obtain ⟨⟨m, hvalue, hstring, hjson⟩, hitems⟩ := List.forall_mem_cons.mp h
    obtain ⟨members, hmembers, hstrings, hjsons⟩ := ih hitems
    let m' : Member := { name := { m.name with before := i.before }, value := { m.value with after := i.after } }
    have hitem : i = m'.item := by
      obtain ⟨before, value, after⟩ := i
      cases hvalue
      rfl
    refine ⟨m' :: members, ?_, List.forall_mem_cons.mpr ⟨hstring, hstrings⟩,
      List.forall_mem_cons.mpr ⟨hjson, hjsons⟩⟩
    rw [List.map_cons, ← hitem, ← hmembers]

/-- **An object that is closed** has members. -/
theorem Closes.object {tail rest : Bytes} (h : Closes closeBrace IsMember true tail rest) :
    ∃ gap, ∃ members : List Member, tail = remaining closeBrace gap none (members.map Member.item) ++ rest ∧
      (∀ m ∈ members, IsString m.name.value) ∧ ∀ m ∈ members, IsJson m.value.value := by
  obtain ⟨after, gap, items, hnone, rfl, hitems⟩ := h
  obtain ⟨members, rfl, hstrings, hjsons⟩ := exists_members hitems
  cases after with
  | none => exact ⟨gap, members, rfl, hstrings, hjsons⟩
  | some space => cases hnone

theorem Closes.isValueThen_object {tail rest : Bytes} (h : Closes closeBrace IsMember true tail rest) :
    IsValueThen (openBrace :: tail) rest := by
  obtain ⟨gap, members, rfl, hstrings, hjsons⟩ := h.object
  exact ⟨_, rfl, .object gap hstrings hjsons⟩

theorem members_eq_ok {name : Reader Text} (hname : AcceptsName name) {take : σ → Text → Reader σ}
    (htake : AcceptsMember take) {start result : σ} {tail rest : Bytes}
    (h : members name take start (openBrace :: tail) = .ok (result, rest)) :
    Closes closeBrace IsMember true tail rest :=
  membersFrom_eq_ok hname htake h

/-! ### Enumerations -/

theorem knownName_eq_ok {ofName? : Text → Option α} {input rest : Bytes} {a : α}
    (h : knownName ofName? input = .ok (a, rest)) :
    ∃ space : Space, ∃ token, input = space.bytes ++ (token ++ rest) ∧ IsString token := by
  obtain ⟨space, tail, rfl, hread⟩ := expected_eq_ok h
  obtain ⟨t, behind, hstring, hname⟩ := exists_of_bind hread
  obtain ⟨token, htoken, hstring⟩ := string_eq_ok hstring
  refine ⟨space, token, ?_, hstring⟩
  cases hvalue : ofName? t with
  | none =>
    rw [hvalue] at hname
    cases hname
  | some value =>
    rw [hvalue] at hname
    cases hname
    rw [htoken]

theorem accepts_knownName (ofName? : Text → Option α) : Accepts (knownName ofName?) := by
  intro input rest a hread
  obtain ⟨space, token, hinput, hstring⟩ := knownName_eq_ok hread
  exact ⟨space, _, hinput, token, rfl, .string hstring⟩

/-- What must be `null` is. -/
theorem null_bind_eq_ok {next : Unit → Reader α} {input rest : Bytes} {a : α}
    (h : (peekByte >>= fun b =>
      if b = lowerN then word (ascii "null") >>= next else wrongType >>= next) input = .ok (a, rest)) :
    ∃ space : Space, ∃ behind,
      input = space.bytes ++ (ascii "null" ++ behind) ∧ next () behind = .ok (a, rest) := by
  obtain ⟨b, behind, hpeek, hb⟩ := exists_of_bind h
  obtain ⟨space, tail, hinput, -, -⟩ := peekByte_eq_ok hpeek
  by_cases hnull : b = lowerN
  · rw [if_pos hnull] at hb
    obtain ⟨_, behind', hword, hnext⟩ := exists_of_bind hb
    exact ⟨space, behind', word_eq_ok hword ▸ hinput, hnext⟩
  · rw [if_neg hnull] at hb
    obtain ⟨_, _, hwrong, -⟩ := exists_of_bind hb
    exact absurd hwrong (wrongType_ne_ok _ _ _)

theorem accepts_enumerated (ofName? : Text → Option α) : Accepts (enumerated ofName?) := by
  refine accepts_of_head fun b tail rest a hb hread => ?_
  by_cases hbrace : b = openBrace
  · rw [if_pos hbrace, bind_of_ok (skip_cons _ _)] at hread
    obtain ⟨value, behind, hname, hseparator⟩ := exists_of_bind hread
    obtain ⟨_, behind', hcolon, hnull⟩ := exists_of_bind hseparator
    obtain ⟨space, token, rfl, hstring⟩ := knownName_eq_ok hname
    obtain ⟨after, rfl⟩ := separator_eq_ok hcolon
    obtain ⟨before, behind₂, rfl, hclose⟩ := null_bind_eq_ok hnull
    obtain ⟨gap, behind₃, rfl, hresult⟩ := expected_eq_ok hclose
    cases hresult
    have hvalue : IsJson (ascii "null") := .word (Or.inl rfl)
    rw [hbrace]
    exact (closes_member hstring hvalue (closes_nil gap false _) none space after before).isValueThen_object
  · rw [if_neg hbrace] at hread
    exact (accepts_knownName ofName?).of_head hb hread

/-! ## Any value -/

/-- What is demanded of scalars does not go below their grammar. -/
structure Demands.Sound (demands : Demands) : Prop where
  string : AcceptsName demands.string
  number : ∀ input rest, demands.number input = .ok ((), rest) →
    ∃ n : Numeral, ∃ bytes, input = bytes ++ rest ∧ n.WrittenAs bytes

theorem acceptsName_string : AcceptsName Reader.string := fun _ _ _ => string_eq_ok

theorem AcceptsName.map {name : Reader α} (h : AcceptsName name) (f : α → β) : AcceptsName (f <$> name) := by
  intro tail rest b hname
  obtain ⟨a, hname, -⟩ := exists_of_map hname
  exact h _ _ _ hname

theorem strict_sound : strict.Sound where
  string := acceptsName_string.map some
  number input rest h := by
    obtain ⟨x, behind, hnumber, hresult⟩ := exists_of_bind h
    cases hresult
    exact number_eq_ok hnumber

theorem lenient_sound : lenient.Sound where
  string tail rest t h := by
    obtain ⟨_, behind, hskip, hresult⟩ := exists_of_bind h
    cases hresult
    exact skipString_eq_ok hskip
  number _ _ := skipNumber_eq_ok

theorem accepts_scalarOr {demands : Demands} (hdemands : demands.Sound)
    {container : UInt8 → Reader (Option Text)}
    (h : ∀ b tail rest t, container b (b :: tail) = .ok (t, rest) → IsValueThen (b :: tail) rest) :
    Accepts (scalarOr demands container) := by
  have hword {w : String} (hw : IsWord w) {input rest : Bytes} {t : Option Text}
      (hread : (word (ascii w) >>= fun _ => pure none : Reader (Option Text)) input = .ok (t, rest)) :
      IsValueThen input rest := by
    obtain ⟨_, behind, hword, hresult⟩ := exists_of_bind hread
    cases hresult
    exact isValueThen_word hw hword
  refine accepts_of_head fun b tail rest t _ hread => ?_
  split at hread
  · exact hword (w := "null") (Or.inl rfl) hread
  split at hread
  · exact hword (w := "true") (Or.inr (Or.inl rfl)) hread
  split at hread
  · exact hword (w := "false") (Or.inr (Or.inr rfl)) hread
  split at hread
  · obtain ⟨_, behind, hnumber, hresult⟩ := exists_of_bind hread
    cases hresult
    obtain ⟨n, bytes, hbytes, hwritten⟩ := hdemands.number _ _ hnumber
    exact ⟨bytes, hbytes, .number hwritten⟩
  split at hread
  · rename_i hquote
    rw [hquote] at hread ⊢
    obtain ⟨token, htoken, hstring⟩ := hdemands.string _ _ _ hread
    exact ⟨token, htoken, .string hstring⟩
  · exact h b tail rest t hread

/-- **What is passed over is a value.** -/
theorem accepts_skipValue {demands : Demands} (hdemands : demands.Sound) (depth : Nat) :
    Accepts (skipValue demands depth) := by
  induction depth with
  | zero =>
    refine accepts_scalarOr hdemands fun b tail rest t hread => ?_
    cases hread
  | succ depth ih =>
    -- What stands in a container is passed over with one level less.
    have hmember : AcceptsMember fun (_ : Unit) (_ : Text) =>
        (do
          separator
          let _ ← skipValue demands depth) :=
      fun _ _ _ _ _ hread => separator_bind_eq_ok ih (fun _ => takesNothing_pure ()) hread
    refine accepts_scalarOr hdemands fun b tail rest t hread => ?_
    split at hread
    · rename_i hbracket
      rw [hbracket] at hread ⊢
      obtain ⟨_, behind, hlist, hresult⟩ := exists_of_bind hread
      cases hresult
      exact (accepts_list ih).of_head rfl hlist
    split at hread
    · rename_i hbrace
      rw [hbrace] at hread ⊢
      obtain ⟨_, behind, hmembers, hresult⟩ := exists_of_bind hread
      cases hresult
      exact (members_eq_ok (hdemands.string.map _) hmember hmembers).isValueThen_object
    · cases hread

theorem accepts_ignored : Accepts ignored := by
  intro input rest a hread
  exact (accepts_skipValue lenient_sound input.length).bind (fun _ => takesNothing_pure ()) _ _ _ hread

/-! ## Records -/

theorem acceptsMember_takeField {schema : List (Text × Reader β)} (hschema : ∀ f ∈ schema, Accepts f.2) :
    AcceptsMember (takeField schema) := by
  intro known name input rest next h
  unfold takeField at h
  cases hread : schema.lookup name with
  | none =>
    rw [hread] at h
    exact separator_bind_eq_ok accepts_ignored (fun _ => takesNothing_pure known) h
  | some read =>
    obtain ⟨before, after, hparts, -⟩ := List.lookup_eq_some_iff.mp hread
    have haccepts : Accepts read := hschema (name, read) (by simp [hparts])
    rw [hread] at h
    dsimp only at h
    split at h
    · cases h
    · exact separator_bind_eq_ok haccepts (fun value => takesNothing_pure (known ++ [(name, value)])) h

/-- **What is read as a record is a value.** -/
theorem accepts_record {schema : List (Text × Reader β)} (hschema : ∀ f ∈ schema, Accepts f.2) :
    Accepts (record schema) := by
  refine accepts_of_head fun b tail rest fields _ hread => ?_
  by_cases harray : b = openBracket
  · rw [if_pos harray, bind_of_ok (skip_cons _ _)] at hread
    rw [harray]
    exact (fieldsInOrder_eq_ok hschema hread).array
  rw [if_neg harray] at hread
  by_cases hobject : b = openBrace
  · rw [if_pos hobject, hobject] at hread
    rw [hobject]
    exact (members_eq_ok acceptsName_string (acceptsMember_takeField hschema) hread).isValueThen_object
  · rw [if_neg hobject] at hread
    exact absurd hread (wrongType_ne_ok _ _ _)

/-- What readers accept is a value if it is so for the readers they are made up of. -/
theorem compositional_accepts : Compositional Accepts where
  count := accepts_count
  float := accepts_float
  optionalFloat := accepts_optionalFloat
  text := accepts_text
  enumerated := accepts_enumerated
  list := accepts_list
  pair := accepts_pair
  record := accepts_record
  check h _ hnext := by
    refine h.bind fun a => ?_
    rcases hnext a with ⟨b, hb⟩ | ⟨fault, hfault⟩
    · rw [hb]
      exact takesNothing_pure b
    · rw [hfault]
      exact takesNothing_throw fault

end PacketTrace.Json.Reader

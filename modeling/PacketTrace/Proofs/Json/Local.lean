import PacketTrace.Proofs.Json.Value

/-!
# `Proofs.Json.Local` — readers that take one value

A reader is given a value of JSON, which need not be of the form it expects. It may find fault with the value, but
what it makes of the value does not depend on what stands around it: such a reader is `Local`. So the outcome for
a document is made up of the outcomes for its parts, each of them read on its own.

## Contents
- **Heads.** A reader that looks at the first byte and goes on from there.
- **Scalars.** `wrongType`, and the readers that expect a scalar.
- **Containers.** Lists, pairs, arrays of fields and objects.
- **Any value.** `skipValue` and `ignored`.
-/

namespace PacketTrace.Json.Reader

variable {α β : Type}

/-- **A reader takes one value**, whatever its form, and nothing of what stands around it. -/
def Local (read : Reader α) : Prop := ∀ value, IsJson value → Settles read value

theorem Local.bind {read : Reader α} {next : α → Reader β} (h : Local read)
    (hnext : ∀ a, Determined (next a) []) : Local (read >>= next) :=
  fun value hvalue => (h value hvalue).bind hnext

theorem Local.map {read : Reader α} (h : Local read) (f : α → β) : Local (f <$> read) := by
  intro value hvalue
  obtain ⟨outcome, h⟩ := h value hvalue
  exact ⟨_, h.map f⟩

/-! ## Heads -/

/-- A reader that looks at the first byte and does the rest from there. -/
theorem settles_of_head {body : UInt8 → Reader α} {b : UInt8} {tail : Bytes} (hb : isSpace b = false)
    (h : Determined (body b) (b :: tail)) : Settles (peekByte >>= body) (b :: tail) := by
  obtain ⟨outcome, h⟩ := h
  refine ⟨outcome, fun before rest hbefore hrest => ?_⟩
  rw [List.cons_append, bind_of_ok (peekByte_cons hbefore hb _)]
  exact h rest hrest

/-! ## Scalars -/

theorem determined_word (expected : List UInt8) {next : Unit → Reader α} (h : Determined (next ()) []) :
    Determined (word expected >>= next) expected := by
  have hread : Reads (word expected) expected (.ok ()) := fun rest _ => word_append expected rest
  exact hread.determined_bind fun _ => h

theorem determined_number {n : Numeral} {bytes : Bytes} (h : n.WrittenAs bytes) {next : Number → Reader α}
    (hnext : ∀ x, Determined (next x) []) : Determined (number >>= next) bytes := by
  have hread : Reads number bytes n.value := fun _ hrest => number_bytes h hrest
  exact hread.determined_bind hnext

theorem local_wrongType : Local (wrongType : Reader α) := by
  have hthrow : Determined (throw .badContent : Reader α) [] := .throw .badContent
  intro value hvalue
  obtain ⟨b, tail, rfl, hhead⟩ := hvalue.head
  refine settles_of_head hhead.first.1 ?_
  cases hhead with
  | word w h hw =>
    rcases h with rfl | rfl | rfl
    · cases hw
      exact determined_word (ascii "null") hthrow
    · cases hw
      exact determined_word (ascii "true") hthrow
    · cases hw
      exact determined_word (ascii "false") hthrow
  | number hstarts _ n h =>
    have hne (c : UInt8) (hc : startsNumber c = false) : b ≠ c := by
      rintro rfl
      rw [hc] at hstarts
      cases hstarts
    rw [if_neg (hne _ rfl), if_neg (hne _ rfl), if_neg (hne _ rfl), if_neg (hne _ rfl), if_pos hstarts]
    exact determined_number h fun _ => hthrow
  | string h => exact h.reads.determined_bind fun _ => hthrow
  | array => exact ⟨.error .badContent, fun _ _ => rfl⟩
  | object => exact ⟨.error .badContent, fun _ _ => rfl⟩

/-- A reader that expects values with a first byte of some kind. -/
theorem local_of_head {p : UInt8 → Prop} [DecidablePred p] {read : Reader α}
    (h : ∀ b tail, p b → IsJson (b :: tail) → Determined read (b :: tail)) :
    Local (do if p (← peekByte) then read else wrongType) := by
  intro value hvalue
  obtain ⟨b, tail, rfl, hhead⟩ := hvalue.head
  refine settles_of_head hhead.first.1 ?_
  by_cases hp : p b
  · rw [if_pos hp]
    exact h b tail hp hvalue
  · rw [if_neg hp]
    exact (local_wrongType _ hvalue).determined

theorem local_count : Local count := by
  apply local_of_head (p := (startsNumber · = true))
  intro b tail hb hvalue
  obtain ⟨n, hn⟩ := hvalue.exists_numeral hb
  refine determined_number hn fun x => ?_
  cases x with
  | word n => exact .pure n
  | real x => exact .throw .badContent

theorem local_float : Local float := by
  apply local_of_head (p := (startsNumber · = true))
  intro b tail hb hvalue
  obtain ⟨n, hn⟩ := hvalue.exists_numeral hb
  refine determined_number hn fun x => ?_
  cases x with
  | word n => exact .pure (Float.ofNat n)
  | real x => exact .pure x

theorem local_text : Local text := by
  apply local_of_head (p := (· = quote))
  rintro b tail rfl hvalue
  exact ⟨_, hvalue.isString.reads⟩

theorem local_optionalFloat : Local optionalFloat := by
  intro value hvalue
  obtain ⟨b, tail, rfl, hhead⟩ := hvalue.head
  by_cases hb : b = lowerN
  · subst hb
    rw [hvalue.eq_null]
    exact ⟨_, yields_optionalFloat_null⟩
  · exact ⟨_, (local_float _ hvalue).yields.optionalFloat hb hhead.first.1⟩

theorem local_knownName (ofName? : Text → Option α) : Local (knownName ofName?) := by
  intro value hvalue
  obtain ⟨b, tail, rfl, hhead⟩ := hvalue.head
  refine settles_of_head hhead.first.1 ?_
  by_cases hb : b = quote
  · subst hb
    rw [if_pos rfl]
    refine hvalue.isString.reads.determined_bind fun t => ?_
    cases ofName? t with
    | none => exact .throw .badContent
    | some a => exact .pure a
  · rw [if_neg hb]
    exact ⟨.error .badGrammar, fun _ _ => rfl⟩

/-- The value of a member must be `null`, and what stands behind it is left to the next reader. -/
theorem determined_null {next : Unit → Reader α} {i : Item} (h : IsJson i.value) {behind : Bytes}
    (hbehind : ∀ rest, Ends (behind ++ rest)) (hnext : Determined (next ()) behind) :
    Determined (peekByte >>= fun b => if b = lowerN then word (ascii "null") >>= next else wrongType >>= next)
      (i.before.bytes ++ (i.value ++ behind)) := by
  obtain ⟨b, tail, hvalue, hhead⟩ := h.head
  have hpeek (rest : Bytes) (_ : Ends rest) : peekByte (i.before.bytes ++ (i.value ++ behind) ++ rest) =
      (Except.ok b).map fun b => (b, i.value ++ behind ++ rest) := by
    rw [hvalue, List.append_assoc, List.append_assoc, List.cons_append,
      peekByte_cons i.before.all_isSpace hhead.first.1]
    rfl
  refine .bind hpeek fun _ heq => ?_
  cases heq
  by_cases hb : b = lowerN
  · subst hb
    rw [hvalue] at h
    rw [if_pos rfl, hvalue, h.eq_null]
    have hword (rest : Bytes) (_ : Ends rest) : word (ascii "null") (ascii "null" ++ behind ++ rest) =
        (Except.ok ()).map fun a => (a, behind ++ rest) := by
      rw [List.append_assoc]
      exact word_append (ascii "null") (behind ++ rest)
    exact .bind hword fun _ _ => hnext
  · rw [if_neg hb]
    have hwrong (rest : Bytes) (_ : Ends rest) : (wrongType : Reader Unit) (i.value ++ behind ++ rest) =
        (whole wrongType i.value).map fun a => (a, behind ++ rest) := by
      rw [List.append_assoc]
      exact (local_wrongType _ h).yields.reads (behind ++ rest) (hbehind rest)
    exact .bind hwrong fun _ _ => hnext

/-- An object must end here. -/
theorem determined_end (a : α) (gap after : Space) (members : List Member) :
    Determined (do
        if (← peekByte) = closeBrace then skip else throw .badGrammar
        return a)
      (remaining closeBrace gap (some after) (members.map Member.item)) := by
  cases members with
  | nil =>
    refine ⟨.ok a, fun rest _ => ?_⟩
    rw [List.map_nil, bind_of_ok (peekByte_remaining_nil gap (some after) rest rfl), if_pos rfl]
    rfl
  | cons m members =>
    refine ⟨.error .badGrammar, fun rest _ => ?_⟩
    rw [List.map_cons, remaining, lead, List.append_assoc, List.append_assoc, List.singleton_append,
      bind_of_ok (peekByte_cons after.all_isSpace (b := comma) rfl _), if_neg (by decide)]
    rfl

/-- The name out of an enumeration may stand in an object, as the name of its only member. -/
theorem local_enumerated (ofName? : Text → Option α) : Local (enumerated ofName?) := by
  intro value hvalue
  obtain ⟨b, tail, rfl, hhead⟩ := hvalue.head
  refine settles_of_head hhead.first.1 ?_
  by_cases hb : b = openBrace
  · subst hb
    obtain ⟨gap, members, rfl, hnames, hvalues⟩ := hvalue.exists_members
    rw [if_pos rfl]
    refine .skip_bind ?_
    cases members with
    | nil =>
      refine ⟨.error .badGrammar, fun rest _ => bind_of_error ?_⟩
      unfold knownName
      rw [List.map_nil, bind_of_ok (peekByte_remaining_nil gap none rest rfl), if_neg (by decide)]
      rfl
    | cons m members =>
      -- What stands behind the first member matters only when its value has been read.
      generalize hbehind : remaining closeBrace gap (some m.value.after) (members.map Member.item) = behind
      have hends (rest : Bytes) : Ends (behind ++ rest) := by
        rw [← hbehind]
        exact ends_remaining closeBrace rfl gap m.value.after _ rest
      have hname (rest : Bytes) (_ : Ends rest) :
          knownName ofName? (remaining closeBrace gap none ((m :: members).map Member.item) ++ rest) =
            (whole (knownName ofName?) m.name.value).map fun a => (a, m.behindName ++ behind ++ rest) := by
        have hread := (local_knownName ofName? _ (.string (hnames m List.mem_cons_self))).yields
          m.name.before.bytes (m.behindName ++ (behind ++ rest)) m.name.before.all_isSpace (m.ends_behindName _)
        rw [List.append_assoc, ← hread, ← hbehind, List.map_cons, remaining, lead, List.nil_append]
        simp only [Member.item, List.append_assoc]
      have hcolon (rest : Bytes) (_ : Ends rest) : separator (m.behindName ++ behind ++ rest) =
          (Except.ok ()).map fun a => (a, m.value.before.bytes ++ (m.value.value ++ behind) ++ rest) := by
        rw [List.append_assoc, m.separator_behindName, List.append_assoc, List.append_assoc]
        rfl
      refine .bind hname fun a _ => .bind hcolon fun _ _ => ?_
      exact determined_null (hvalues m List.mem_cons_self) hends (hbehind ▸ determined_end a gap _ members)
  · rw [if_neg hb]
    exact (local_knownName ofName? _ hvalue).determined

/-! ## Containers -/

/-- The next item of an array must be there, and the other items are left to the next reader. -/
theorem determined_item {read : Reader α} (hread : Local read) {next : α → Reader β} (gap : Space)
    (after : Option Space) {items : List Item} (hitems : ∀ i ∈ items, IsJson i.value)
    (hnext : ∀ a i others, items = i :: others →
      Determined (next a) (remaining closeBracket gap (some i.after) others)) :
    Determined (item after.isNone read >>= next) (remaining closeBracket gap after items) := by
  cases items with
  | nil => exact ⟨.error .badContent, fun rest _ => bind_of_error (item_nil gap after rest read)⟩
  | cons i others =>
    have hi : IsJson i.value := hitems i List.mem_cons_self
    exact .bind (fun rest _ => item_cons gap after rest (hread _ hi).yields hi.begins others)
      fun a _ => hnext a i others rfl

theorem determined_endArray {next : Unit → Reader α} (hnext : Determined (next ()) []) (gap : Space)
    (after : Option Space) {items : List Item} (hitems : ∀ i ∈ items, IsJson i.value) :
    Determined (endArray >>= next) (remaining closeBracket gap after items) := by
  cases items with
  | nil =>
    have hend : Reads endArray (remaining closeBracket gap after []) (.ok ()) :=
      fun rest _ => endArray_nil gap after rest
    exact hend.determined_bind fun _ => hnext
  | cons i items =>
    have hi : IsJson i.value := hitems i List.mem_cons_self
    exact ⟨.error .badGrammar, fun rest _ => bind_of_error (endArray_cons gap after rest hi.begins items)⟩

theorem local_list {read : Reader α} (hread : Local read) : Local (list read) := by
  intro value hvalue
  obtain ⟨b, tail, rfl, hhead⟩ := hvalue.head
  by_cases hb : b = openBracket
  · subst hb
    obtain ⟨gap, items, rfl, hitems⟩ := hvalue.exists_items
    have hyields : Items read (fun i => i) (fun i => whole read i.value) items :=
      ⟨fun i hi => (hread _ (hitems i hi)).yields, fun i hi => (hitems i hi).begins⟩
    have hlist := yields_list hyields gap
    rw [List.map_id'] at hlist
    exact ⟨_, hlist⟩
  · refine settles_of_head hhead.first.1 ?_
    rw [if_neg hb]
    exact (local_wrongType _ hvalue).determined

theorem local_pair {readFirst : Reader α} {readSecond : Reader β} (hfirst : Local readFirst)
    (hsecond : Local readSecond) : Local (pair readFirst readSecond) := by
  apply local_of_head (p := (· = openBracket))
  rintro b tail rfl hvalue
  obtain ⟨gap, items, rfl, hitems⟩ := hvalue.exists_items
  refine .skip_bind (determined_item hfirst gap none hitems ?_)
  rintro a i others rfl
  have hothers := (List.forall_mem_cons.mp hitems).2
  refine determined_item hsecond gap (some i.after) hothers ?_
  rintro b j others rfl
  exact determined_endArray (.pure (a, b)) gap _ (List.forall_mem_cons.mp hothers).2

/-- A record in an array has one item for each field of the schema. -/
theorem determined_fieldsInOrder {schema : List (Text × Reader β)} (hschema : ∀ f ∈ schema, Local f.2)
    (gap : Space) (after : Option Space) {items : List Item} (hitems : ∀ i ∈ items, IsJson i.value) :
    Determined (fieldsInOrder after.isNone schema) (remaining closeBracket gap after items) := by
  induction schema generalizing after items with
  | nil => exact determined_endArray (.pure []) gap after hitems
  | cons f schema ih =>
    refine determined_item (hschema f List.mem_cons_self) gap after hitems ?_
    rintro a i others rfl
    have hothers := ih (fun g hg => hschema g (List.mem_cons_of_mem f hg)) (some i.after)
      (List.forall_mem_cons.mp hitems).2
    exact hothers.reads.determined_bind fun fields => .pure ((f.1, a) :: fields)

/-- An object is read member by member, so it is determined if each member is. -/
theorem determined_members {σ : Type} {readName : Reader Text} {take : σ → Text → Reader σ}
    {members : List Member} (hnames : ∀ m ∈ members, IsString m.name.value)
    (h : ∀ m ∈ members, ∀ known, Determined (readName >>= take known) m.item.value) (gap : Space) (start : σ) :
    Determined (Reader.members readName take start)
      (openBrace :: remaining closeBrace gap none (members.map Member.item)) := by
  have htakes : ∀ m ∈ members, Takes readName take (fun m => m)
      (fun known m => whole (readName >>= take known) m.item.value) m :=
    fun m hm => ⟨(hnames m hm).begins, fun known => (h m hm known).reads⟩
  exact ⟨_, fun rest _ => members_remaining htakes gap start rest⟩

/-- The value of a member is read after its name. -/
theorem Member.determined_value {m : Member} {read : Reader α} (hread : Settles read m.value.value)
    {next : α → Reader β} (hnext : ∀ a, Determined (next a) []) :
    Determined (separator >>= fun _ => read >>= next) m.behindName := by
  obtain ⟨outcome, hread⟩ := hread
  cases outcome with
  | error fault => exact ⟨.error fault, fun rest hrest => m.value_bind hread hrest next⟩
  | ok a =>
    obtain ⟨result, hresult⟩ := hnext a
    exact ⟨result, fun rest hrest => (m.value_bind hread hrest next).trans (hresult rest hrest)⟩

theorem Member.determined_name {m : Member} {readName : Reader Text}
    (hname : Determined readName m.name.value) {next : Text → Reader α}
    (hnext : ∀ t, Determined (next t) m.behindName) : Determined (readName >>= next) m.item.value := by
  obtain ⟨outcome, hname⟩ := hname
  cases outcome with
  | error fault => exact ⟨.error fault, fun rest _ => m.name_bind hname next rest⟩
  | ok t =>
    obtain ⟨result, hresult⟩ := hnext t
    exact ⟨result, fun rest hrest => (m.name_bind hname next rest).trans (hresult rest hrest)⟩

/-! ## Any value -/

/-- What is demanded of strings and of numbers can be settled. -/
structure Demands.Settled (demands : Demands) : Prop where
  string : ∀ token, IsString token → Determined demands.string token
  number : ∀ (n : Numeral) (bytes : Bytes), n.WrittenAs bytes → Determined demands.number bytes

theorem settled_strict : strict.Settled where
  string _ h := ⟨_, h.reads.map some⟩
  number _ _ h := determined_number h fun _ => .pure ()

section

variable (demands : Demands) (container : UInt8 → Reader (Option Text))

theorem yields_scalarOr_word {w : String} (h : IsWord w) :
    Yields (scalarOr demands container) (ascii w) (.ok none) := by
  intro before rest hbefore _
  have hword := word_append (ascii w) rest
  unfold scalarOr
  rcases h with rfl | rfl | rfl
  · show (peekByte >>= _) (before ++ lowerN :: ([0x75, 0x6C, 0x6C] ++ rest)) = _
    rw [bind_of_ok (peekByte_cons hbefore rfl _), if_pos rfl]
    exact bind_of_ok hword
  · show (peekByte >>= _) (before ++ lowerT :: ([0x72, 0x75, 0x65] ++ rest)) = _
    rw [bind_of_ok (peekByte_cons hbefore rfl _), if_neg (by decide), if_pos rfl]
    exact bind_of_ok hword
  · show (peekByte >>= _) (before ++ lowerF :: ([0x61, 0x6C, 0x73, 0x65] ++ rest)) = _
    rw [bind_of_ok (peekByte_cons hbefore rfl _), if_neg (by decide), if_neg (by decide), if_pos rfl]
    exact bind_of_ok hword

variable {demands}

theorem yields_scalarOr_number {n : Numeral} {bytes : Bytes} (h : n.WrittenAs bytes)
    {outcome : Except ReadError Unit} (hnumber : Reads demands.number bytes outcome) :
    Yields (scalarOr demands container) bytes (outcome.map fun _ => none) := by
  obtain ⟨b, tail, rfl, hstarts, hspace⟩ := h.begins
  have hne (c : UInt8) (hc : startsNumber c = false) : b ≠ c := by
    rintro rfl
    rw [hc] at hstarts
    cases hstarts
  intro before rest hbefore hrest
  unfold scalarOr
  rw [List.cons_append, bind_of_ok (peekByte_cons hbefore hspace _), if_neg (hne _ rfl), if_neg (hne _ rfl),
    if_neg (hne _ rfl), if_pos hstarts]
  refine (hnumber.bind hrest _).trans ?_
  cases outcome with
  | error fault => rfl
  | ok _ => rfl

theorem yields_scalarOr_string {token : Bytes} (h : IsString token) {outcome : Except ReadError (Option Text)}
    (hstring : Reads demands.string token outcome) : Yields (scalarOr demands container) token outcome := by
  obtain ⟨tail, rfl⟩ := h.begins
  intro before rest hbefore hrest
  unfold scalarOr
  rw [List.cons_append, bind_of_ok (peekByte_cons hbefore rfl _), if_neg (by decide), if_neg (by decide),
    if_neg (by decide), if_neg (by decide), if_pos rfl]
  exact hstring rest hrest

end

/-- Scalars are read in the same way whatever the limit. -/
theorem skipValue_eq_scalarOr (demands : Demands) (limit : Nat) :
    ∃ container, skipValue demands limit = scalarOr demands container := by
  cases limit with
  | zero => exact ⟨_, rfl⟩
  | succ limit => exact ⟨_, rfl⟩

/-- What a reader of values of any form does with a byte that begins no scalar. -/
theorem scalarOr_container (demands : Demands) (container : UInt8 → Reader (Option Text)) {b : UInt8}
    (hb : b = openBracket ∨ b = openBrace) {before : Bytes} (hbefore : before.all isSpace = true)
    (rest : Bytes) :
    scalarOr demands container (before ++ b :: rest) = container b (b :: rest) := by
  unfold scalarOr
  rcases hb with rfl | rfl
  · rw [bind_of_ok (peekByte_cons hbefore rfl _), if_neg (by decide), if_neg (by decide),
      if_neg (by decide), if_neg (by decide), if_neg (by decide)]
  · rw [bind_of_ok (peekByte_cons hbefore rfl _), if_neg (by decide), if_neg (by decide),
      if_neg (by decide), if_neg (by decide), if_neg (by decide)]

/-- Scalars are taken as they are demanded; so a reader of values takes one value if it does so for containers. -/
theorem local_scalarOr {demands : Demands} (h : demands.Settled) {container : UInt8 → Reader (Option Text)}
    (harray : ∀ tail, IsJson (openBracket :: tail) → Determined (container openBracket) (openBracket :: tail))
    (hobject : ∀ tail, IsJson (openBrace :: tail) → Determined (container openBrace) (openBrace :: tail)) :
    Local (scalarOr demands container) := by
  intro value hvalue
  cases hvalue with
  | word hw => exact ⟨_, yields_scalarOr_word demands container hw⟩
  | number hn => exact ⟨_, yields_scalarOr_number container hn (h.number _ _ hn).reads⟩
  | string hs => exact ⟨_, yields_scalarOr_string container hs (h.string _ hs).reads⟩
  | array gap hitems =>
    obtain ⟨outcome, hread⟩ := harray _ (.array gap hitems)
    refine ⟨outcome, fun before rest hbefore hrest => ?_⟩
    rw [List.cons_append, scalarOr_container demands container (Or.inl rfl) hbefore]
    exact hread rest hrest
  | object gap hnames hvalues =>
    obtain ⟨outcome, hread⟩ := hobject _ (.object gap hnames hvalues)
    refine ⟨outcome, fun before rest hbefore hrest => ?_⟩
    rw [List.cons_append, scalarOr_container demands container (Or.inr rfl) hbefore]
    exact hread rest hrest

/-- **A value of any form is one value**, however deep containers may stand in it. -/
theorem local_skipValue {demands : Demands} (h : demands.Settled) (limit : Nat) :
    Local (skipValue demands limit) := by
  induction limit with
  | zero =>
    exact local_scalarOr h (fun _ _ => ⟨.error .badGrammar, fun _ _ => rfl⟩)
      fun _ _ => ⟨.error .badGrammar, fun _ _ => rfl⟩
  | succ limit ih =>
    apply local_scalarOr h
    · intro tail hvalue
      rw [if_pos rfl]
      exact (local_list ih _ hvalue).determined.reads.determined_bind fun _ => .pure none
    · intro tail hvalue
      obtain ⟨gap, members, rfl, hnames, hvalues⟩ := hvalue.exists_members
      rw [if_neg (by decide), if_pos rfl]
      have hmember : ∀ m ∈ members, ∀ _ : Unit, Determined
          ((·.getD []) <$> demands.string >>= fun _ => do
            separator
            let _ ← skipValue demands limit) m.item.value := by
        intro m hm _
        have hname := (h.string _ (hnames m hm)).reads.map (·.getD [])
        exact m.determined_name ⟨_, hname⟩ fun _ => m.determined_value (ih _ (hvalues m hm)) fun _ => .pure ()
      exact (determined_members hnames hmember gap ()).reads.determined_bind fun _ => .pure none

theorem reads_lenient_string {token : Bytes} (h : IsString token) : Reads lenient.string token (.ok none) :=
  fun rest hrest => bind_of_ok (h.reads_skipString rest hrest)

theorem reads_lenient_number {n : Numeral} {bytes : Bytes} (h : n.WrittenAs bytes) :
    Reads lenient.number bytes (.ok ()) := by
  intro rest hrest
  show skipNumber (bytes ++ rest) = _
  unfold skipNumber
  rw [numeral_bytes h hrest]
  rfl

/-- An array is passed over with its items. -/
theorem yields_skipValue_array {limit : Nat} {items : List Item}
    (h : Items (skipValue lenient limit) (fun i => i) (fun _ => .ok none) items) (gap : Space) :
    Yields (skipValue lenient (limit + 1)) (openBracket :: remaining closeBracket gap none items) (.ok none) := by
  have hnone : items.mapM (fun _ => (.ok none : Except ReadError (Option Text))) =
      .ok (items.map fun _ => none) := List.mapM_pure
  have hlist := yields_list h gap
  rw [List.map_id', hnone] at hlist
  intro before rest hbefore hrest
  rw [List.cons_append]
  unfold skipValue
  rw [scalarOr_container lenient _ (Or.inl rfl) hbefore, if_pos rfl]
  exact hlist.reads.bind hrest _

/-- An object is passed over with its members. -/
theorem yields_skipValue_object {limit : Nat} {members : List Member}
    (hnames : ∀ m ∈ members, IsString m.name.value)
    (h : ∀ m ∈ members, Yields (skipValue lenient limit) m.value.value (.ok none)) (gap : Space) :
    Yields (skipValue lenient (limit + 1))
      (openBrace :: remaining closeBrace gap none (members.map Member.item)) (.ok none) := by
  have htakes : ∀ m ∈ members, Takes ((·.getD []) <$> lenient.string)
      (fun _ _ => do
        separator
        let _ ← skipValue lenient limit)
      (fun m => m) (fun _ _ => .ok ()) m := by
    intro m hm
    have hname := (reads_lenient_string (hnames m hm)).map (·.getD [])
    refine ⟨(hnames m hm).begins, fun _ rest hrest => ?_⟩
    exact (m.name_bind hname _ rest).trans (m.value_bind (h m hm) hrest _)
  have hnone : members.foldlM (fun _ _ => (.ok () : Except ReadError Unit)) () = .ok () := by
    -- Nothing is kept of the members, so only their number would matter here.
    clear htakes hnames h
    induction members with
    | nil => rfl
    | cons m members ih => rwa [List.foldlM_cons]
  intro before rest hbefore _
  have hobject := members_remaining htakes gap () rest
  rw [hnone] at hobject
  rw [List.cons_append]
  unfold skipValue
  rw [scalarOr_container lenient _ (Or.inr rfl) hbefore, if_neg (by decide), if_pos rfl]
  exact bind_of_ok hobject

/-- A value in a container is shorter than the container. -/
theorem length_lt_of_mem {closing : UInt8} (gap : Space) (after : Option Space) {items : List Item} {i : Item}
    (h : i ∈ items) : i.value.length < (remaining closing gap after items).length := by
  induction items generalizing after with
  | nil => cases h
  | cons j items ih =>
    have hrest := length_lt_remaining closing gap j.after items
    simp only [remaining, List.length_append]
    rcases List.mem_cons.mp h with rfl | h
    · omega
    · have hi := ih (some j.after) h
      omega

theorem Member.length_value_le (m : Member) : m.value.value.length ≤ m.item.value.length := by
  simp only [item, behindName, List.length_append, List.length_cons]
  omega

/-- **Any value can be passed over** if only its grammar matters: it cannot hold more containers than bytes. -/
theorem yields_skipValue_lenient {value : Bytes} (h : IsJson value) {limit : Nat}
    (hlimit : value.length ≤ limit) : Yields (skipValue lenient limit) value (.ok none) := by
  obtain ⟨container, hscalar⟩ := skipValue_eq_scalarOr lenient limit
  -- The induction is on the value. Its length bounds the limit, and an item is shorter than its container.
  induction h generalizing limit container with
  | word h =>
    rw [hscalar]
    exact yields_scalarOr_word lenient container h
  | number h =>
    rw [hscalar]
    exact yields_scalarOr_number container h (reads_lenient_number h)
  | string h =>
    rw [hscalar]
    exact yields_scalarOr_string container h (reads_lenient_string h)
  | @array gap items h ih =>
    obtain ⟨limit, rfl⟩ := Nat.exists_eq_add_one_of_ne_zero (Nat.ne_zero_of_lt hlimit)
    refine yields_skipValue_array ⟨fun i hi => ?_, fun i hi => (h i hi).begins⟩ gap
    have hlength : i.value.length < (remaining closeBracket gap none items).length := length_lt_of_mem gap none hi
    obtain ⟨inner, hinner⟩ := skipValue_eq_scalarOr lenient limit
    rw [List.length_cons] at hlimit
    exact ih i hi (by omega) inner hinner
  | @object gap members hnames hvalues ih =>
    obtain ⟨limit, rfl⟩ := Nat.exists_eq_add_one_of_ne_zero (Nat.ne_zero_of_lt hlimit)
    refine yields_skipValue_object hnames (fun m hm => ?_) gap
    have hlength : m.item.value.length < (remaining closeBrace gap none (members.map Member.item)).length :=
      length_lt_of_mem gap none (List.mem_map_of_mem hm)
    have hvalue := m.length_value_le
    obtain ⟨inner, hinner⟩ := skipValue_eq_scalarOr lenient limit
    rw [List.length_cons] at hlimit
    exact ih m hm (by omega) inner hinner

/-- A value that does not matter is passed over. -/
theorem yields_ignored {value : Bytes} (h : IsJson value) : Yields ignored value (.ok ()) := by
  intro before rest hbefore hrest
  have hlimit : value.length ≤ (before ++ (value ++ rest)).length := by
    rw [List.length_append, List.length_append]
    omega
  unfold ignored
  rw [bind_of_ok (show (get : Reader Bytes) (before ++ (value ++ rest)) = .ok (_, _) from rfl)]
  exact (yields_skipValue_lenient h hlimit).bind hbefore hrest _

end PacketTrace.Json.Reader

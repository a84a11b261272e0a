import PacketTrace.Proofs.Json.Layout

/-!
# `Proofs.Json.Container` — containers are read item by item

A reader takes the items of an array one by one, and the members of an object. So what it makes of a container is
what it makes of the items, one after the other, up to the first fault: `mapM` for an array and `foldlM` for an
object, whatever white space stands between them. The containers that are written are a case of this.

## Contents
- **Arrays.** `Items`, `yields_list`, and the items of an array of a fixed length.
- **Objects.** `Takes`, `members_remaining`.
- **Documents.** Lists, pairs and objects that were written.
-/

namespace PacketTrace.Json.Reader

open Utf8

variable {α β γ σ : Type}

/-! ## Arrays -/

theorem all_isSpace_trail (after : Option Space) (gap : Space) :
    (trail after ++ gap.bytes).all isSpace = true := by
  rw [List.all_append, gap.all_isSpace, Bool.and_true]
  cases after with
  | none => rfl
  | some after => exact after.all_isSpace

section

variable (gap : Space) (after : Option Space) (rest : Bytes)

/-- What a reader sees at the end of a container. -/
theorem peekByte_remaining_nil {closing : UInt8} (hclosing : isSpace closing = false) :
    peekByte (remaining closing gap after [] ++ rest) = .ok (closing, closing :: rest) := by
  rw [remaining, ← List.append_assoc, List.append_assoc]
  exact peekByte_cons (all_isSpace_trail after gap) hclosing rest

/-- There is one more item. -/
theorem hasItem_cons {i : Item} (hi : Begins i.value) (items : List Item) :
    hasItem after.isNone (remaining closeBracket gap after (i :: items) ++ rest) =
      .ok (true, i.value ++ (remaining closeBracket gap (some i.after) items ++ rest)) := by
  obtain ⟨b, tail, hvalue, hb, hne⟩ := hi
  have hpeek : peekByte (i.before.bytes ++ (i.value ++ (remaining closeBracket gap (some i.after) items ++ rest))) =
      .ok (b, i.value ++ (remaining closeBracket gap (some i.after) items ++ rest)) := by
    rw [hvalue]
    exact peekByte_cons i.before.all_isSpace hb _
  rw [remaining, List.append_assoc, List.append_assoc, List.append_assoc]
  unfold hasItem
  cases after with
  | none =>
    show (peekByte >>= _) (i.before.bytes ++ _) = _
    rw [bind_of_ok hpeek, if_neg hne]
    rfl
  | some after =>
    rw [lead, List.append_assoc, List.singleton_append,
      bind_of_ok (peekByte_cons after.all_isSpace (b := comma) rfl _), if_neg (by decide),
      if_neg (by exact Bool.false_ne_true), if_pos rfl, bind_of_ok (skip_cons _ _), bind_of_ok hpeek, if_neg hne]
    rfl

/-- There is no item left. -/
theorem hasItem_nil :
    hasItem after.isNone (remaining closeBracket gap after [] ++ rest) = .ok (false, closeBracket :: rest) := by
  unfold hasItem
  rw [bind_of_ok (peekByte_remaining_nil gap after rest rfl), if_pos rfl]
  rfl

/-- The next item is read. -/
theorem item?_cons {read : Reader α} {i : Item} {outcome : Except ReadError α}
    (hread : Yields read i.value outcome) (hi : Begins i.value) (items : List Item) :
    item? after.isNone read (remaining closeBracket gap after (i :: items) ++ rest) =
      outcome.map fun a => (some a, remaining closeBracket gap (some i.after) items ++ rest) := by
  have hnext := hread.map some [] _ rfl (ends_remaining closeBracket rfl gap i.after items rest)
  rw [List.nil_append] at hnext
  unfold item?
  rw [bind_of_ok (hasItem_cons gap after rest hi items), if_pos rfl, hnext]
  cases outcome with
  | error fault => rfl
  | ok a => rfl

theorem item?_nil (read : Reader α) :
    item? after.isNone read (remaining closeBracket gap after [] ++ rest) =
      .ok (none, closeBracket :: rest) := by
  unfold item?
  rw [bind_of_ok (hasItem_nil gap after rest), if_neg Bool.false_ne_true]
  rfl

/-- An item that must be there. -/
theorem item_cons {read : Reader α} {i : Item} {outcome : Except ReadError α}
    (hread : Yields read i.value outcome) (hi : Begins i.value) (items : List Item) :
    item after.isNone read (remaining closeBracket gap after (i :: items) ++ rest) =
      outcome.map fun a => (a, remaining closeBracket gap (some i.after) items ++ rest) := by
  have hitem := item?_cons gap after rest hread hi items
  unfold item
  cases outcome with
  | error fault => exact bind_of_error hitem
  | ok a => exact bind_of_ok hitem

theorem item_nil (read : Reader α) :
    item after.isNone read (remaining closeBracket gap after [] ++ rest) = .error .badContent := by
  unfold item
  exact bind_of_ok (item?_nil gap after rest read)

/-- An array of a fixed length ends where it must. -/
theorem endArray_nil : endArray (remaining closeBracket gap after [] ++ rest) = .ok ((), rest) := by
  unfold endArray
  rw [bind_of_ok (peekByte_remaining_nil gap after rest rfl), if_pos rfl]
  rfl

theorem endArray_cons {i : Item} (hi : Begins i.value) (items : List Item) :
    endArray (remaining closeBracket gap after (i :: items) ++ rest) = .error .badGrammar := by
  obtain ⟨b, tail, hvalue, hb, hne⟩ := hi
  rw [remaining, List.append_assoc, List.append_assoc, List.append_assoc]
  unfold endArray
  cases after with
  | none =>
    rw [hvalue]
    show (peekByte >>= _) (i.before.bytes ++ b :: _) = _
    rw [bind_of_ok (peekByte_cons i.before.all_isSpace hb _), if_neg hne]
    rfl
  | some after =>
    rw [lead, List.append_assoc, List.singleton_append,
      bind_of_ok (peekByte_cons after.all_isSpace (b := comma) rfl _), if_neg (by decide)]
    rfl

end

/-- A reader makes of each item what `outcome` says. -/
structure Items (read : Reader α) (item : γ → Item) (outcome : γ → Except ReadError α) (xs : List γ) :
    Prop where
  yields : ∀ x ∈ xs, Yields read (item x).value (outcome x)
  begins : ∀ x ∈ xs, Begins (item x).value

theorem Items.tail {read : Reader α} {item : γ → Item} {outcome : γ → Except ReadError α} {x : γ}
    {xs : List γ} (h : Items read item outcome (x :: xs)) : Items read item outcome xs where
  yields y hy := h.yields y (List.mem_cons_of_mem x hy)
  begins y hy := h.begins y (List.mem_cons_of_mem x hy)

/-- The items up to the end of an array. -/
theorem items_remaining {read : Reader α} {item : γ → Item} {outcome : γ → Except ReadError α} {xs : List γ}
    (h : Items read item outcome xs) (gap : Space) {fuel : Nat} (hfuel : xs.length < fuel)
    (after : Option Space) (before : List α) (rest : Bytes) :
    items read fuel after.isNone before (remaining closeBracket gap after (xs.map item) ++ rest) =
      (xs.mapM outcome).map fun as => (before.reverse ++ as, rest) := by
  -- The induction is on the items; the fuel stays above their number.
  induction xs generalizing fuel after before with
  | nil =>
    obtain ⟨fuel, rfl⟩ := Nat.exists_eq_add_one_of_ne_zero (Nat.ne_zero_of_lt hfuel)
    rw [List.map_nil, items, bind_of_ok (item?_nil gap after rest read)]
    show Except.ok (before.reverse, rest) = .ok (before.reverse ++ [], rest)
    rw [List.append_nil]
  | cons x xs ih =>
    obtain ⟨fuel, rfl⟩ := Nat.exists_eq_add_one_of_ne_zero (Nat.ne_zero_of_lt hfuel)
    have hitem := item?_cons gap after rest (h.yields x List.mem_cons_self) (h.begins x List.mem_cons_self)
      (xs.map item)
    rw [List.map_cons, items, List.mapM_cons]
    cases hx : outcome x with
    | error fault =>
      rw [hx] at hitem
      exact bind_of_error hitem
    | ok a =>
      rw [hx] at hitem
      rw [bind_of_ok hitem]
      refine (ih h.tail (Nat.lt_of_succ_lt_succ hfuel) (some (item x).after) (a :: before)).trans ?_
      cases xs.mapM outcome with
      | error fault => rfl
      | ok as =>
        show Except.ok ((a :: before).reverse ++ as, rest) = Except.ok (before.reverse ++ a :: as, rest)
        rw [List.reverse_cons, List.append_assoc, List.singleton_append]

/-- **An array is read item by item.** -/
theorem yields_list {read : Reader α} {item : γ → Item} {outcome : γ → Except ReadError α} {xs : List γ}
    (h : Items read item outcome xs) (gap : Space) :
    Yields (list read) (openBracket :: remaining closeBracket gap none (xs.map item)) (xs.mapM outcome) := by
  intro before rest hbefore _
  have hfuel : xs.length < (remaining closeBracket gap none (xs.map item) ++ rest).length + 1 := by
    have hlength := length_le_remaining closeBracket gap (xs.map item)
    rw [List.length_map] at hlength
    rw [List.length_append]
    omega
  unfold list
  rw [List.cons_append, bind_of_ok (peekByte_cons hbefore rfl _), if_pos rfl, bind_of_ok (skip_cons _ _)]
  exact items_remaining h gap hfuel none [] rest

/-! ## Objects -/

/-- The name of a member begins with a quote. -/
def Member.Named (m : Member) : Prop := ∃ tail, m.name.value = quote :: tail

section

variable (gap : Space) (after : Option Space) (rest : Bytes)

/-- There is one more member. -/
theorem hasMember_cons {m : Member} (hm : m.Named) (items : List Item) :
    hasMember after.isNone (remaining closeBrace gap after (m.item :: items) ++ rest) =
      .ok (true, m.item.value ++ (remaining closeBrace gap (some m.item.after) items ++ rest)) := by
  obtain ⟨tail, hname⟩ := hm
  have hpeek : peekByte (m.item.before.bytes ++
        (m.item.value ++ (remaining closeBrace gap (some m.item.after) items ++ rest))) =
      .ok (quote, m.item.value ++ (remaining closeBrace gap (some m.item.after) items ++ rest)) := by
    unfold Member.item
    rw [hname]
    exact peekByte_cons m.name.before.all_isSpace rfl _
  rw [remaining, List.append_assoc, List.append_assoc, List.append_assoc]
  unfold hasMember
  cases after with
  | none =>
    show (peekByte >>= _) (m.item.before.bytes ++ _) = _
    rw [bind_of_ok hpeek, if_neg (by decide)]
    rfl
  | some after =>
    rw [lead, List.append_assoc, List.singleton_append,
      bind_of_ok (peekByte_cons after.all_isSpace (b := comma) rfl _), if_neg (by decide),
      if_neg (by exact Bool.false_ne_true), if_pos rfl, bind_of_ok (skip_cons _ _), bind_of_ok hpeek, if_pos rfl]
    rfl

/-- There is no member left. -/
theorem hasMember_nil :
    hasMember after.isNone (remaining closeBrace gap after [] ++ rest) = .ok (false, closeBrace :: rest) := by
  unfold hasMember
  rw [bind_of_ok (peekByte_remaining_nil gap after rest rfl), if_pos rfl]
  rfl

end

/-- A reader makes of a member, from its name to its value, what `step` says. -/
structure Takes (readName : Reader Text) (take : σ → Text → Reader σ) (member : γ → Member)
    (step : σ → γ → Except ReadError σ) (m : γ) : Prop where
  named : (member m).Named
  takes : ∀ known rest, Ends rest →
    (readName >>= take known) ((member m).item.value ++ rest) = (step known m).map fun known => (known, rest)

section

variable {readName : Reader Text} {take : σ → Text → Reader σ} {member : γ → Member}
  {step : σ → γ → Except ReadError σ} {ms : List γ}

/-- The members up to the end of an object. -/
theorem membersFrom_remaining (h : ∀ m ∈ ms, Takes readName take member step m) (gap : Space) {fuel : Nat}
    (hfuel : ms.length < fuel) (after : Option Space) (known : σ) (rest : Bytes) :
    membersFrom readName take fuel after.isNone known
        (remaining closeBrace gap after (ms.map fun m => (member m).item) ++ rest) =
      (ms.foldlM step known).map fun known => (known, rest) := by
  induction ms generalizing fuel after known with
  | nil =>
    obtain ⟨fuel, rfl⟩ := Nat.exists_eq_add_one_of_ne_zero (Nat.ne_zero_of_lt hfuel)
    rw [List.map_nil, membersFrom, bind_of_ok (hasMember_nil gap after rest)]
    rfl
  | cons m ms ih =>
    obtain ⟨fuel, rfl⟩ := Nat.exists_eq_add_one_of_ne_zero (Nat.ne_zero_of_lt hfuel)
    obtain ⟨hnamed, htakes⟩ := h m List.mem_cons_self
    have htake := htakes known _
      (ends_remaining closeBrace rfl gap (member m).item.after (ms.map fun m => (member m).item) rest)
    rw [List.map_cons, membersFrom, bind_of_ok (hasMember_cons gap after rest hnamed _), if_pos rfl, ← bind_assoc,
      List.foldlM_cons]
    cases hstep : step known m with
    | error fault =>
      rw [hstep] at htake
      exact bind_of_error htake
    | ok next =>
      rw [hstep] at htake
      rw [bind_of_ok htake]
      exact ih (fun n hn => h n (List.mem_cons_of_mem m hn)) (Nat.lt_of_succ_lt_succ hfuel) (some _) next

/-- **An object is read member by member**, from its opening brace on. -/
theorem members_remaining (h : ∀ m ∈ ms, Takes readName take member step m) (gap : Space) (start : σ)
    (rest : Bytes) :
    members readName take start
        (openBrace :: (remaining closeBrace gap none (ms.map fun m => (member m).item) ++ rest)) =
      (ms.foldlM step start).map fun known => (known, rest) := by
  have hlength := length_le_remaining closeBrace gap (ms.map fun m => (member m).item)
  rw [List.length_map] at hlength
  have hfuel : ms.length <
      (remaining closeBrace gap none (ms.map fun m => (member m).item) ++ rest).length + 1 := by
    rw [List.length_append]
    omega
  unfold members
  rw [bind_of_ok (skip_cons _ _)]
  exact membersFrom_remaining h gap hfuel none start rest

end

theorem Member.ends_behindName (m : Member) (rest : Bytes) : Ends (m.behindName ++ rest) := by
  unfold behindName
  rw [List.append_assoc]
  exact ends_append m.name.after (ends_cons (b := colon) rfl _)

/-- The name of a member is read first. -/
theorem Member.name_bind {m : Member} {readName : Reader Text} {name : Except ReadError Text}
    (h : Reads readName m.name.value name) (next : Text → Reader α) (rest : Bytes) :
    (readName >>= next) (m.item.value ++ rest) = name >>= fun t => next t (m.behindName ++ rest) := by
  unfold Member.item
  rw [List.append_assoc]
  exact h.bind (m.ends_behindName rest) next

theorem Member.separator_behindName (m : Member) (rest : Bytes) :
    separator (m.behindName ++ rest) = .ok ((), m.value.before.bytes ++ (m.value.value ++ rest)) := by
  unfold behindName separator
  rw [List.append_assoc, List.cons_append, List.append_assoc,
    bind_of_ok (peekByte_cons m.name.after.all_isSpace (b := colon) rfl _), if_pos rfl]
  rfl

/-- After the colon the value is read. -/
theorem Member.value_bind {m : Member} {read : Reader α} {outcome : Except ReadError α}
    (h : Yields read m.value.value outcome) {rest : Bytes} (hrest : Ends rest) (next : α → Reader β) :
    (separator >>= fun _ => read >>= next) (m.behindName ++ rest) = outcome >>= fun a => next a rest := by
  rw [bind_of_ok (m.separator_behindName rest)]
  exact h.bind m.value.before.all_isSpace hrest next

/-! ## Documents -/

theorem array_head (items : List Doc) (depth : Nat) :
    ∃ tail, encode (array items depth) = openBracket :: tail :=
  ⟨_, encode_array items depth⟩

theorem object_head (members : List (Text × Doc)) (depth : Nat) :
    ∃ tail, encode (object members depth) = openBrace :: tail :=
  ⟨_, encode_object members depth⟩

theorem begins_array (items : List Doc) (depth : Nat) : Begins (encode (array items depth)) := by
  obtain ⟨tail, htail⟩ := array_head items depth
  exact ⟨openBracket, tail, htail, rfl, by decide⟩

theorem begins_object (members : List (Text × Doc)) (depth : Nat) :
    Begins (encode (object members depth)) := by
  obtain ⟨tail, htail⟩ := object_head members depth
  exact ⟨openBrace, tail, htail, rfl, by decide⟩

/-- **A list is read back item by item.** -/
theorem yields_array {read : Reader α} {doc : γ → Doc} {outcome : γ → Except ReadError α} {xs : List γ}
    (hyields : ∀ x ∈ xs, ∀ depth, Yields read (encode (doc x depth)) (outcome x))
    (hbegins : ∀ x ∈ xs, ∀ depth, Begins (encode (doc x depth))) (depth : Nat) :
    Yields (list read) (encode (array (xs.map doc) depth)) (xs.mapM outcome) := by
  have hitems : Items read (fun x => Item.ofDoc (depth + 1) (doc x)) outcome xs :=
    ⟨fun x hx => hyields x hx _, fun x hx => hbegins x hx _⟩
  rw [encode_array, List.map_map]
  exact yields_list hitems _

/-- **A pair is read back.** -/
theorem yields_pair {readFirst : Reader α} {readSecond : Reader β} {doc₁ doc₂ : Doc} {a : α} {b : β}
    (h₁ : ∀ depth, Yields readFirst (encode (doc₁ depth)) (.ok a) ∧ Begins (encode (doc₁ depth)))
    (h₂ : ∀ depth, Yields readSecond (encode (doc₂ depth)) (.ok b) ∧ Begins (encode (doc₂ depth)))
    (depth : Nat) :
    Yields (pair readFirst readSecond) (encode (array [doc₁, doc₂] depth)) (.ok (a, b)) := by
  intro before rest hbefore _
  have hfirst := item_cons (i := .ofDoc (depth + 1) doc₁) (.line depth) none rest (h₁ _).1 (h₁ _).2
    [.ofDoc (depth + 1) doc₂]
  have hsecond := item_cons (i := .ofDoc (depth + 1) doc₂) (.line depth) (some .empty) rest (h₂ _).1 (h₂ _).2 []
  rw [encode_array, List.cons_append]
  unfold pair
  rw [bind_of_ok (peekByte_cons hbefore rfl _), if_pos rfl, bind_of_ok (skip_cons _ _)]
  refine (bind_of_ok hfirst).trans ?_
  refine (bind_of_ok hsecond).trans ?_
  exact bind_of_ok (endArray_nil _ _ rest)

/-- **An object is read back member by member**, from its opening brace on. -/
theorem members_object {readName : Reader Text} {take : σ → Text → Reader σ} {name : γ → Text}
    {doc : γ → Doc} {step : σ → γ → Except ReadError σ} {ms : List γ} (depth : Nat)
    (h : ∀ m ∈ ms, Takes readName take (fun m => Member.ofDoc (depth + 1) (name m) (doc m)) step m)
    (start : σ) (rest : Bytes) :
    members readName take start (encode (object (ms.map fun m => (name m, doc m)) depth) ++ rest) =
      (ms.foldlM step start).map fun known => (known, rest) := by
  rw [encode_object, List.cons_append, List.map_map, List.map_map]
  exact members_remaining h _ start rest

end PacketTrace.Json.Reader

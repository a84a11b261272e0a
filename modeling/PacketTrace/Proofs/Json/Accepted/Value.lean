import PacketTrace.Proofs.Json.Accepted.Token

/-!
# `Proofs.Json.Accepted.Value` — scalars that are accepted

`Accepts` says of a reader that what it takes is a value of JSON, with white space in front of it. A reader that
only looks at the result of such a reader, to use or to refuse it, has the property as well.

## Contents
- **Values.** `Accepts`, and readers that go on from the first byte.
- **Scalars.** The readers of a value of one type.
-/

namespace PacketTrace.Json.Reader

variable {α β : Type}

/-! ## Values -/

/-- Some bytes are a value and what stands behind it. -/
def IsValueThen (input rest : Bytes) : Prop := ∃ value, input = value ++ rest ∧ IsJson value

/-- **What a reader takes is a value**, with white space in front of it. -/
def Accepts (read : Reader α) : Prop :=
  ∀ input rest a, read input = .ok (a, rest) →
    ∃ space : Space, ∃ behind, input = space.bytes ++ behind ∧ IsValueThen behind rest

/-- A reader that takes nothing. -/
def TakesNothing (read : Reader α) : Prop := ∀ input rest a, read input = .ok (a, rest) → rest = input

theorem takesNothing_pure (a : α) : TakesNothing (pure a : Reader α) := by
  rintro input rest b ⟨⟩
  rfl

theorem takesNothing_throw (fault : ReadError) : TakesNothing (throw fault : Reader α) := by
  rintro input rest a ⟨⟩

theorem Accepts.bind {read : Reader α} {next : α → Reader β} (h : Accepts read)
    (hnext : ∀ a, TakesNothing (next a)) : Accepts (read >>= next) := by
  intro input rest b hread
  obtain ⟨a, behind, hread, hafter⟩ := exists_of_bind hread
  rw [hnext a _ _ _ hafter]
  exact h _ _ _ hread

theorem Accepts.map {read : Reader α} (h : Accepts read) (f : α → β) : Accepts (f <$> read) := by
  rw [map_eq_pure_bind]
  exact h.bind fun a => takesNothing_pure (f a)

/-- White space that was passed over before counts as well. -/
theorem Accepts.of_space {read : Reader α} (h : Accepts read) (space : Space) {input rest : Bytes} {a : α}
    (hread : read input = .ok (a, rest)) :
    ∃ before : Space, ∃ behind, space.bytes ++ input = before.bytes ++ behind ∧ IsValueThen behind rest := by
  obtain ⟨before, behind, rfl, hvalue⟩ := h _ _ _ hread
  have hspace : (space.bytes ++ before.bytes).all isSpace = true := by
    rw [List.all_append, space.all_isSpace, before.all_isSpace]
    rfl
  exact ⟨⟨space.bytes ++ before.bytes, hspace⟩, behind, (List.append_assoc _ _ _).symm, hvalue⟩

/-- There is no white space in front of a byte of another kind. -/
theorem Accepts.of_head {read : Reader α} (h : Accepts read) {b : UInt8} (hb : isSpace b = false)
    {tail rest : Bytes} {a : α} (hread : read (b :: tail) = .ok (a, rest)) : IsValueThen (b :: tail) rest := by
  obtain ⟨⟨space, hspace⟩, behind, hbehind, hvalue⟩ := h _ _ _ hread
  cases space with
  | nil => exact hbehind ▸ hvalue
  | cons c space =>
    cases hbehind
    have hc := List.all_eq_true.mp hspace b List.mem_cons_self
    rw [hb] at hc
    cases hc

/-- A value of the wrong type is never accepted. -/
theorem wrongType_ne_ok (input rest : Bytes) (a : α) : (wrongType : Reader α) input ≠ .ok (a, rest) := by
  have hthrow {β : Type} (read : Reader β) (input : Bytes) :
      (read >>= fun _ => throw .badContent : Reader α) input ≠ .ok (a, rest) := by
    intro h
    obtain ⟨_, _, _, h⟩ := exists_of_bind h
    cases h
  intro h
  -- One case for each kind of value, in the order in which the reader tells them apart.
  obtain ⟨b, behind, -, h⟩ := exists_of_bind h
  split at h
  · exact hthrow _ _ h
  split at h
  · exact hthrow _ _ h
  split at h
  · exact hthrow _ _ h
  split at h
  · exact hthrow _ _ h
  split at h
  · exact hthrow _ _ h
  split at h
  · cases h
  · cases h

/-- A reader that goes on from the first byte. -/
theorem accepts_of_head {body : UInt8 → Reader α}
    (h : ∀ b tail rest a, isSpace b = false → body b (b :: tail) = .ok (a, rest) →
      IsValueThen (b :: tail) rest) :
    Accepts (peekByte >>= body) := by
  intro input rest a hread
  obtain ⟨b, behind, hpeek, hbody⟩ := exists_of_bind hread
  obtain ⟨space, tail, hinput, rfl, hb⟩ := peekByte_eq_ok hpeek
  exact ⟨space, b :: tail, hinput, h b tail rest a hb hbody⟩

/-- A reader that expects values with a first byte of some kind. -/
theorem accepts_or_wrongType {p : UInt8 → Prop} [DecidablePred p] {read : Reader α}
    (h : ∀ b tail rest a, p b → read (b :: tail) = .ok (a, rest) → IsValueThen (b :: tail) rest) :
    Accepts (do if p (← peekByte) then read else wrongType) := by
  refine accepts_of_head fun b tail rest a _ hread => ?_
  by_cases hb : p b
  · rw [if_pos hb] at hread
    exact h b tail rest a hb hread
  · rw [if_neg hb] at hread
    exact absurd hread (wrongType_ne_ok _ _ _)

/-! ## Scalars -/

theorem isValueThen_number {input rest : Bytes} {x : Number} (h : number input = .ok (x, rest)) :
    IsValueThen input rest := by
  obtain ⟨n, bytes, hbytes, hwritten⟩ := number_eq_ok h
  exact ⟨bytes, hbytes, .number hwritten⟩

theorem isValueThen_string {tail rest : Bytes} {t : Text} (h : string (quote :: tail) = .ok (t, rest)) :
    IsValueThen (quote :: tail) rest := by
  obtain ⟨token, htoken, hstring⟩ := string_eq_ok h
  exact ⟨token, htoken, .string hstring⟩

theorem isValueThen_word {w : String} (hw : IsWord w) {input rest : Bytes}
    (h : word (ascii w) input = .ok ((), rest)) : IsValueThen input rest :=
  ⟨ascii w, word_eq_ok h, .word hw⟩

theorem accepts_count : Accepts count := by
  apply accepts_or_wrongType (p := (startsNumber · = true))
  intro b tail rest n _ hread
  obtain ⟨x, behind, hnumber, huse⟩ := exists_of_bind hread
  cases x with
  | word n =>
    cases huse
    exact isValueThen_number hnumber
  | real x => cases huse

theorem accepts_float : Accepts float := by
  apply accepts_or_wrongType (p := (startsNumber · = true))
  intro b tail rest n _ hread
  obtain ⟨x, behind, hnumber, huse⟩ := exists_of_bind hread
  cases x with
  | word n =>
    cases huse
    exact isValueThen_number hnumber
  | real x =>
    cases huse
    exact isValueThen_number hnumber

theorem accepts_text : Accepts text := by
  apply accepts_or_wrongType (p := (· = quote))
  rintro b tail rest t rfl hread
  exact isValueThen_string hread

theorem accepts_optionalFloat : Accepts optionalFloat := by
  intro input rest x hread
  obtain ⟨first, behind, hpeek, hread⟩ := exists_of_bind hread
  obtain ⟨space, hinput⟩ := exists_space input
  cases hpeek
  -- The white space is gone already when the float is read, so it is put in front again.
  by_cases hnull : (input.dropWhile isSpace).head? = some lowerN
  · rw [if_pos hnull] at hread
    obtain ⟨_, behind, hword, hread⟩ := exists_of_bind hread
    cases hread
    exact ⟨space, _, hinput, isValueThen_word (w := "null") (Or.inl rfl) hword⟩
  · rw [if_neg hnull] at hread
    rw [hinput]
    exact (accepts_float.map some).of_space space hread

end PacketTrace.Json.Reader

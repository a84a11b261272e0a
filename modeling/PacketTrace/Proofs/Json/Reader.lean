import PacketTrace.Json.Container
import PacketTrace.Json.Layout
import PacketTrace.Proofs.Text.Encoding

/-!
# `Proofs.Json.Reader` — tokens and scalars that were written are read back

A reader meets a value in the middle of a text: white space stands in front of it, and what stands behind
it cannot continue a number. `Yields` says what a reader makes of a value there, be it a result or a fault;
either way it depends on the value alone, so it is what the reader makes of the value on its own.
This module proves it for the tokens and the scalars that are written.

## Contents
- **Readers.** How a bind runs; `peek` and fixed words.
- **Values in a text.** `Ends`, `Reads`, `Yields`, `Settles` and `Begins`.
- **Strings.** `string_quoted`: a string is read back whatever characters it has.
- **Scalars.** Strings, counts and floats.
-/

namespace PacketTrace.Json.Reader

open Utf8

variable {α β : Type}

/-! ## Readers -/

theorem bind_of_ok {read : Reader α} {next : α → Reader β} {input rest : Bytes} {a : α}
    (h : read input = .ok (a, rest)) : (read >>= next) input = next a rest := by
  show (read input >>= fun p => next p.1 p.2) = _
  rw [h]
  rfl

theorem bind_of_error {read : Reader α} {next : α → Reader β} {input : Bytes} {fault : ReadError}
    (h : read input = .error fault) : (read >>= next) input = .error fault := by
  show (read input >>= fun p => next p.1 p.2) = _
  rw [h]
  rfl

theorem map_apply (f : α → β) (read : Reader α) (input : Bytes) :
    (f <$> read) input = (read input).map fun p => (f p.1, p.2) :=
  rfl

/-- White space in front of a byte is passed over. -/
theorem peek_cons {before : Bytes} (hbefore : before.all isSpace = true) {b : UInt8}
    (hb : isSpace b = false) (rest : Bytes) :
    peek (before ++ b :: rest) = .ok (some b, b :: rest) := by
  unfold peek
  have hdrop : (before ++ b :: rest).dropWhile isSpace = b :: rest := by
    rw [List.dropWhile_append_of_pos (List.all_eq_true.mp hbefore), List.dropWhile_cons_of_neg]
    simp [hb]
  rw [hdrop]
  rfl

theorem peekByte_cons {before : Bytes} (hbefore : before.all isSpace = true) {b : UInt8}
    (hb : isSpace b = false) (rest : Bytes) :
    peekByte (before ++ b :: rest) = .ok (b, b :: rest) := by
  unfold peekByte
  rw [bind_of_ok (peek_cons hbefore hb rest)]
  rfl

theorem peekByte_head {b : UInt8} (hb : isSpace b = false) (rest : Bytes) :
    peekByte (b :: rest) = .ok (b, b :: rest) :=
  peekByte_cons List.all_nil hb rest

theorem skip_cons (b : UInt8) (rest : Bytes) : skip (b :: rest) = .ok ((), rest) := rfl

theorem word_append (expected rest : Bytes) : word expected (expected ++ rest) = .ok ((), rest) := by
  induction expected with
  | nil => rfl
  | cons b expected ih =>
    rw [List.cons_append, word, bind_of_ok (show next (b :: _) = .ok (b, _) from rfl), if_pos rfl, ih]

/-! ## Values in a text -/

/-- Whether a byte can continue a number. -/
def continuesNumber (b : UInt8) : Bool :=
  isDigit b || b == point || b == lowerE || b == upperE

/-- What stands behind a value does not continue a number. -/
def Ends (rest : Bytes) : Prop := ∀ b ∈ rest.head?, continuesNumber b = false

theorem ends_nil : Ends [] := by
  intro b hb
  cases hb

theorem ends_cons {b : UInt8} (h : continuesNumber b = false) (rest : Bytes) : Ends (b :: rest) := by
  intro c hc
  cases hc
  exact h

/-- What a reader makes of a value right in front of it. -/
def Reads (read : Reader α) (value : Bytes) (outcome : Except ReadError α) : Prop :=
  ∀ rest, Ends rest → read (value ++ rest) = outcome.map fun a => (a, rest)

/-- After a value the reader goes on with what stands behind it. -/
theorem Reads.bind {read : Reader α} {value : Bytes} {outcome : Except ReadError α}
    (h : Reads read value outcome) {rest : Bytes} (hrest : Ends rest) (next : α → Reader β) :
    (read >>= next) (value ++ rest) = outcome >>= fun a => next a rest := by
  have hread := h rest hrest
  cases outcome with
  | error fault => exact bind_of_error hread
  | ok a => exact bind_of_ok hread

theorem Reads.map {read : Reader α} {value : Bytes} {outcome : Except ReadError α}
    (h : Reads read value outcome) (f : α → β) : Reads (f <$> read) value (f <$> outcome) := by
  intro rest hrest
  rw [map_apply, h rest hrest]
  cases outcome with
  | error fault => rfl
  | ok a => rfl

/-- **What a reader makes of a value in a text.** The outcome is the same whatever stands around it. -/
def Yields (read : Reader α) (value : Bytes) (outcome : Except ReadError α) : Prop :=
  ∀ before rest, before.all isSpace = true → Ends rest →
    read (before ++ (value ++ rest)) = outcome.map fun a => (a, rest)

theorem Yields.reads {read : Reader α} {value : Bytes} {outcome : Except ReadError α}
    (h : Yields read value outcome) : Reads read value outcome :=
  fun rest hrest => h [] rest rfl hrest

theorem Yields.bind {read : Reader α} {value : Bytes} {outcome : Except ReadError α}
    (h : Yields read value outcome) {before rest : Bytes} (hbefore : before.all isSpace = true)
    (hrest : Ends rest) (next : α → Reader β) :
    (read >>= next) (before ++ (value ++ rest)) = outcome >>= fun a => next a rest := by
  have hread := h before rest hbefore hrest
  cases outcome with
  | error fault => exact bind_of_error hread
  | ok a => exact bind_of_ok hread

theorem Yields.map {read : Reader α} {value : Bytes} {outcome : Except ReadError α}
    (h : Yields read value outcome) (f : α → β) : Yields (f <$> read) value (f <$> outcome) := by
  intro before rest hbefore hrest
  rw [map_apply, h before rest hbefore hrest]
  cases outcome with
  | error fault => rfl
  | ok a => rfl

theorem whole_eq_of_apply {read : Reader α} {bytes rest : Bytes} {outcome : Except ReadError α}
    (h : read bytes = outcome.map fun a => (a, rest)) (hrest : rest.all isSpace = true) :
    whole read bytes = outcome := by
  unfold whole
  rw [h]
  cases outcome with
  | error fault => rfl
  | ok a => exact if_pos hrest

/-- The outcome is what the reader makes of the value on its own. -/
theorem Reads.whole_eq {read : Reader α} {value : Bytes} {outcome : Except ReadError α}
    (h : Reads read value outcome) : whole read value = outcome := by
  have hread := h [] ends_nil
  rw [List.append_nil] at hread
  exact whole_eq_of_apply hread rfl

/-- What a reader makes of a value right in front of it does not depend on what stands behind it. -/
def Determined (read : Reader α) (value : Bytes) : Prop := ∃ outcome, Reads read value outcome

theorem Determined.reads {read : Reader α} {value : Bytes} (h : Determined read value) :
    Reads read value (whole read value) := by
  obtain ⟨outcome, h⟩ := h
  rw [h.whole_eq]
  exact h

theorem Determined.pure (a : α) : Determined (pure a : Reader α) [] := ⟨.ok a, fun _ _ => rfl⟩

theorem Determined.throw (fault : ReadError) : Determined (throw fault : Reader α) [] :=
  ⟨.error fault, fun _ _ => rfl⟩

/-- A reader that stops inside a value leaves the rest of it to the next one. -/
theorem Determined.bind {read : Reader α} {next : α → Reader β} {value tail : Bytes}
    {outcome : Except ReadError α}
    (hread : ∀ rest, Ends rest → read (value ++ rest) = outcome.map fun a => (a, tail ++ rest))
    (hnext : ∀ a, outcome = .ok a → Determined (next a) tail) : Determined (read >>= next) value := by
  cases outcome with
  | error fault => exact ⟨.error fault, fun rest hrest => bind_of_error (hread rest hrest)⟩
  | ok a =>
    obtain ⟨result, hresult⟩ := hnext a rfl
    refine ⟨result, fun rest hrest => ?_⟩
    rw [bind_of_ok (hread rest hrest)]
    exact hresult rest hrest

theorem Determined.skip_bind {next : Unit → Reader α} {b : UInt8} {tail : Bytes}
    (h : Determined (next ()) tail) : Determined (skip >>= next) (b :: tail) := by
  have hskip (rest : Bytes) (_ : Ends rest) :
      skip (b :: tail ++ rest) = (Except.ok ()).map fun a => (a, tail ++ rest) := rfl
  exact .bind hskip fun _ _ => h

/-- A reader that takes the whole value leaves nothing of it. -/
theorem Reads.determined_bind {read : Reader α} {next : α → Reader β} {value : Bytes}
    {outcome : Except ReadError α} (h : Reads read value outcome)
    (hnext : ∀ a, Determined (next a) []) : Determined (read >>= next) value := by
  have hread (rest : Bytes) (hrest : Ends rest) :
      read (value ++ rest) = outcome.map fun a => (a, [] ++ rest) := h rest hrest
  exact .bind hread fun a _ => hnext a

/-- **A reader settles a value** if what it makes of it does not depend on what stands around it. -/
def Settles (read : Reader α) (value : Bytes) : Prop := ∃ outcome, Yields read value outcome

theorem Settles.yields {read : Reader α} {value : Bytes} (h : Settles read value) :
    Yields read value (whole read value) := by
  obtain ⟨outcome, h⟩ := h
  rw [h.reads.whole_eq]
  exact h

theorem Settles.determined {read : Reader α} {value : Bytes} (h : Settles read value) :
    Determined read value := by
  obtain ⟨outcome, h⟩ := h
  exact ⟨outcome, h.reads⟩

/-- The outcome may be judged once the value has been read. -/
theorem Settles.bind {read : Reader α} {next : α → Reader β} {value : Bytes} (h : Settles read value)
    (hnext : ∀ a, Determined (next a) []) : Settles (read >>= next) value := by
  obtain ⟨outcome, h⟩ := h
  cases outcome with
  | error fault => exact ⟨.error fault, fun before rest hbefore hrest => h.bind hbefore hrest next⟩
  | ok a =>
    obtain ⟨result, hresult⟩ := hnext a
    exact ⟨result, fun before rest hbefore hrest => (h.bind hbefore hrest next).trans (hresult rest hrest)⟩

/-- A value begins with its own byte, and that byte does not close an array. -/
def Begins (value : Bytes) : Prop :=
  ∃ b rest, value = b :: rest ∧ isSpace b = false ∧ b ≠ closeBracket

/-! ## Strings -/

/-- Whether a byte of a string stands for itself. -/
structure IsPlain (b : UInt8) : Prop where
  ne_quote : b ≠ quote
  ne_backslash : b ≠ backslash
  no_control : 0x20 ≤ b

theorem isPlain_of_le {b : UInt8} (h : 0x80 ≤ b) : IsPlain b := by
  have hb : 0x80 ≤ b.toNat := UInt8.le_iff_toNat_le.mp h
  have hne (n : UInt8) (hn : n.toNat < 0x80) : b ≠ n := by
    rintro rfl
    omega
  exact ⟨hne _ (by decide), hne _ (by decide), UInt8.le_iff_toNat_le.mpr (by simp; omega)⟩

theorem stringBytes_plain {b : UInt8} (h : IsPlain b) (read rest : Bytes) :
    stringBytes read .plain (b :: rest) = stringBytes (b :: read) .plain rest := by
  rw [stringBytes, if_neg h.ne_quote, if_neg h.ne_backslash, if_neg (UInt8.not_lt.mpr h.no_control)]

theorem stringBytes_append {bytes : Bytes} (h : ∀ b ∈ bytes, IsPlain b) (read rest : Bytes) :
    stringBytes read .plain (bytes ++ rest) = stringBytes (bytes.reverse ++ read) .plain rest := by
  induction bytes generalizing read with
  | nil => rfl
  | cons b bytes ih =>
    rw [List.cons_append, stringBytes_plain (h b List.mem_cons_self),
      ih fun c hc => h c (List.mem_cons_of_mem b hc), List.reverse_cons, List.append_assoc,
      List.singleton_append]

/-- A letter after a backslash. -/
theorem stringBytes_letter {letter c : UInt8} (h : escaped? letter = some c) (read rest : Bytes) :
    stringBytes read .plain (backslash :: letter :: rest) = stringBytes (c :: read) .plain rest := by
  rw [stringBytes, if_neg (by decide), if_pos rfl, stringBytes, h]

/-- Four digits in base sixteen. -/
theorem stringBytes_hex {a b c d : UInt8} {n : Nat} (hfour : fourHex? [d, c, b, a] = some n)
    {high : Option Nat} {state : StringState} {bytes : Bytes} (hhex : fromHex n high = .ok (state, bytes))
    (read rest : Bytes) :
    stringBytes read (.hex [] high) (a :: b :: c :: d :: rest) =
      stringBytes (bytes.reverse ++ read) state rest := by
  rw [stringBytes, if_pos (by decide), stringBytes, if_pos (by simp), stringBytes, if_pos (by simp),
    stringBytes, if_neg (by simp), hfour]
  dsimp only
  rw [hhex]

theorem stringBytes_hex_error {a b c d : UInt8} {n : Nat} (hfour : fourHex? [d, c, b, a] = some n)
    {high : Option Nat} {fault : ReadError} (hhex : fromHex n high = .error fault) (read rest : Bytes) :
    stringBytes read (.hex [] high) (a :: b :: c :: d :: rest) = .error fault := by
  rw [stringBytes, if_pos (by decide), stringBytes, if_pos (by simp), stringBytes, if_pos (by simp),
    stringBytes, if_neg (by simp), hfour]
  dsimp only
  rw [hhex]

/-- The byte of a digit in base sixteen. -/
def hexByte (n : Nat) : UInt8 := .ofNat (hexDigit n).toNat

theorem utf8EncodeChar_hexDigit : ∀ n < 0x10, String.utf8EncodeChar (hexDigit n) = [hexByte n] := by
  decide

theorem fourHex?_control : ∀ n < 0x20,
    fourHex? [hexByte (n % 16), hexByte (n / 16), zero, zero] = some n := by
  decide

theorem fromHex_control {n : Nat} (h : n < 0x20) : fromHex n none = .ok (.plain, [.ofNat n]) := by
  have hnumber : (Char.ofNat n).toNat = n := by
    rw [Char.ofNat, dif_pos (Or.inl (by omega))]
    rfl
  have hbytes : encode [Char.ofNat n] = [.ofNat n] := by
    rw [encode_cons, utf8EncodeChar_of_ascii (by omega), hnumber]
    rfl
  unfold fromHex
  dsimp only
  rw [if_neg (by simp; omega), if_neg (by simp; omega), hbytes]

/-- How a character is written in a string. -/
inductive CharForm (c : Char) : Bytes → Prop where
  /-- By a letter. -/
  | letter {letter b : UInt8} (h : escaped? letter = some b) (hc : String.utf8EncodeChar c = [b]) :
      CharForm c [backslash, letter]
  /-- By its number. -/
  | control (h : c.toNat < 0x20) :
      CharForm c [backslash, lowerU, zero, zero, hexByte (c.toNat / 16), hexByte (c.toNat % 16)]
  /-- As it is. -/
  | plain (h : ∀ b ∈ String.utf8EncodeChar c, IsPlain b) : CharForm c (String.utf8EncodeChar c)

theorem isPlain_utf8EncodeChar {c : Char} (hquote : c ≠ '"') (hbackslash : c ≠ '\\')
    (hcontrol : ¬ c.toNat < 0x20) : ∀ b ∈ String.utf8EncodeChar c, IsPlain b := by
  intro b hb
  by_cases hascii : c.toNat ≤ 0x7F
  · have hbyte : (UInt8.ofNat c.toNat).toNat = c.toNat := UInt8.toNat_ofNat_of_lt' (by
      show c.toNat < 256
      omega)
    have hne (d : Char) (hd : d.toNat < 0x80) (h : c ≠ d) : UInt8.ofNat c.toNat ≠ .ofNat d.toNat := by
      intro heq
      have hnat := congrArg UInt8.toNat heq
      rw [hbyte, UInt8.toNat_ofNat_of_lt' (by show d.toNat < 256; omega)] at hnat
      exact h (Char.toNat_inj.mp hnat)
    rw [utf8EncodeChar_of_ascii hascii] at hb
    obtain rfl := List.mem_singleton.mp hb
    exact ⟨hne '"' (by decide) hquote, hne '\\' (by decide) hbackslash,
      UInt8.le_iff_toNat_le.mpr (by rw [hbyte]; exact Nat.not_lt.mp hcontrol)⟩
  · exact isPlain_of_le (le_of_mem_utf8EncodeChar (Nat.not_le.mp hascii) hb)

theorem charForm_escape (c : Char) : CharForm c (encode (escape c)) := by
  unfold escape
  -- the seven letters, in the order of `escape`
  split
  · subst c; exact .letter (show escaped? quote = some quote from rfl) rfl
  split
  · subst c; exact .letter (show escaped? backslash = some backslash from rfl) rfl
  split
  · subst c; exact .letter (show escaped? lowerB = some 0x08 from rfl) rfl
  split
  · subst c; exact .letter (show escaped? lowerT = some 0x09 from rfl) rfl
  split
  · subst c; exact .letter (show escaped? lowerN = some 0x0A from rfl) rfl
  split
  · subst c; exact .letter (show escaped? lowerF = some 0x0C from rfl) rfl
  split
  · subst c; exact .letter (show escaped? lowerR = some 0x0D from rfl) rfl
  split
  · rename_i hcontrol
    have hbytes : encode ['\\', 'u', '0', '0', hexDigit (c.toNat / 16), hexDigit (c.toNat % 16)] =
        [backslash, lowerU, zero, zero, hexByte (c.toNat / 16), hexByte (c.toNat % 16)] := by
      have hhigh := utf8EncodeChar_hexDigit (c.toNat / 16) (by omega)
      have hlow := utf8EncodeChar_hexDigit (c.toNat % 16) (by omega)
      simp only [encode, List.flatMap_cons, List.flatMap_nil, hhigh, hlow]
      rfl
    rw [hbytes]
    exact .control hcontrol
  · rename_i hquote hbackslash _ _ _ _ _ hcontrol
    rw [encode_cons, encode_nil, List.append_nil]
    exact .plain (isPlain_utf8EncodeChar hquote hbackslash hcontrol)

/-- **A character is read back**, in whatever form it is written. -/
theorem stringBytes_escape (c : Char) (read rest : Bytes) :
    stringBytes read .plain (encode (escape c) ++ rest) =
      stringBytes ((String.utf8EncodeChar c).reverse ++ read) .plain rest := by
  have hform := charForm_escape c
  generalize encode (escape c) = bytes at hform ⊢
  cases hform with
  | letter h hc =>
    rw [hc]
    exact stringBytes_letter h read rest
  | control h =>
    have hletter : escaped? lowerU = none := rfl
    rw [utf8EncodeChar_of_ascii (by omega), List.cons_append, stringBytes, if_neg (by decide), if_pos rfl,
      List.cons_append, stringBytes, hletter]
    exact stringBytes_hex (fourHex?_control _ h) (fromHex_control h) read rest
  | plain h => exact stringBytes_append h read rest

theorem stringBytes_flatMap_escape (t : Text) (read rest : Bytes) :
    stringBytes read .plain (encode (t.flatMap escape) ++ rest) =
      stringBytes ((encode t).reverse ++ read) .plain rest := by
  induction t generalizing read with
  | nil => rfl
  | cons c t ih =>
    rw [List.flatMap_cons, encode_append, List.append_assoc, stringBytes_escape, ih, encode_cons,
      List.reverse_append, List.append_assoc]

/-- **A string is read back.** -/
theorem string_quoted (t : Text) (rest : Bytes) :
    string (encode (quoted t) ++ rest) = .ok (t, rest) := by
  have hbytes : encode (quoted t) ++ rest = quote :: (encode (t.flatMap escape) ++ quote :: rest) := by
    unfold quoted
    rw [encode_append, encode_cons, List.append_assoc, List.append_assoc]
    rfl
  have hread : stringBytes [] .plain (encode (t.flatMap escape) ++ quote :: rest) =
      .ok (encode t, rest) := by
    rw [stringBytes_flatMap_escape, List.append_nil, stringBytes, if_pos rfl, List.reverse_reverse]
  unfold string
  rw [hbytes, bind_of_ok (skip_cons quote _), bind_of_ok hread, decode?_encode]
  rfl

theorem reads_quoted (t : Text) : Reads string (encode (quoted t)) (.ok t) :=
  fun rest _ => string_quoted t rest

theorem quoted_begins (t : Text) : ∃ rest, encode (quoted t) = quote :: rest :=
  ⟨encode (t.flatMap escape ++ ['"']), rfl⟩

/-- What a reader does with a string, if it expects one. -/
theorem yields_string {read other : Reader α} (t : Text) {outcome : Except ReadError α}
    (hread : ∀ rest, read (encode (quoted t) ++ rest) = outcome.map fun a => (a, rest)) :
    Yields (do if (← peekByte) = quote then read else other) (encode (quoted t)) outcome := by
  intro before rest hbefore _
  obtain ⟨tail, htail⟩ := quoted_begins t
  have hstring := hread rest
  rw [htail, List.cons_append] at hstring ⊢
  rw [bind_of_ok (peekByte_cons hbefore rfl _), if_pos rfl, hstring]

/-! ## Scalars -/

/-- **A text is read back.** -/
theorem yields_text (t : Text) (depth : Nat) : Yields text (encode (ofText t depth)) (.ok t) :=
  yields_string t fun rest => string_quoted t rest

theorem begins_text (t : Text) (depth : Nat) : Begins (encode (ofText t depth)) :=
  ⟨quote, _, rfl, rfl, by decide⟩

/-- A name is read back if it is known. -/
theorem yields_enumerated (ofName? : Text → Option α) {t : Text} {a : α} (h : ofName? t = some a)
    (depth : Nat) : Yields (enumerated ofName?) (encode (ofText t depth)) (.ok a) := by
  have hname : Yields (knownName ofName?) (encode (quoted t)) (.ok a) := by
    apply yields_string t
    intro rest
    rw [bind_of_ok (string_quoted t rest), h]
    rfl
  intro before rest hbefore hrest
  obtain ⟨tail, htail⟩ := quoted_begins t
  have hnext := hname [] rest rfl hrest
  show enumerated ofName? (before ++ (encode (quoted t) ++ rest)) = _
  rw [htail, List.cons_append] at hnext ⊢
  unfold enumerated
  rw [bind_of_ok (peekByte_cons hbefore rfl _), if_neg (by decide)]
  exact hnext

/-- The word `null` is no number. -/
theorem yields_float_null : Yields float (ascii "null") (.error .badContent) := by
  intro before rest hbefore _
  have hword : word (ascii "null") (lowerN :: ([0x75, 0x6C, 0x6C] ++ rest)) = .ok ((), rest) :=
    word_append (ascii "null") rest
  have hpeek : peekByte (lowerN :: ([0x75, 0x6C, 0x6C] ++ rest)) = .ok (lowerN, _) :=
    peekByte_head rfl _
  show float (before ++ (lowerN :: ([0x75, 0x6C, 0x6C] ++ rest))) = _
  unfold float
  rw [bind_of_ok (peekByte_cons hbefore rfl _), if_neg (by decide)]
  unfold wrongType
  rw [bind_of_ok hpeek, if_pos rfl, bind_of_ok hword]
  rfl

/-- The word `null` stands for a value that is missing. -/
theorem yields_optionalFloat_null : Yields optionalFloat (ascii "null") (.ok none) := by
  intro before rest hbefore _
  have hword : word (ascii "null") (lowerN :: ([0x75, 0x6C, 0x6C] ++ rest)) = .ok ((), rest) :=
    word_append (ascii "null") rest
  show optionalFloat (before ++ (lowerN :: ([0x75, 0x6C, 0x6C] ++ rest))) = _
  unfold optionalFloat
  rw [bind_of_ok (peek_cons hbefore rfl _), if_pos rfl, bind_of_ok hword]
  rfl

/-- Any value but `null` is read as a float. -/
theorem Yields.optionalFloat {b : UInt8} {tail : Bytes} {outcome : Except ReadError Float}
    (h : Yields float (b :: tail) outcome) (hb : b ≠ lowerN) (hspace : isSpace b = false) :
    Yields optionalFloat (b :: tail) (some <$> outcome) := by
  intro before rest hbefore hrest
  have hfloat := h.map some [] rest rfl hrest
  rw [List.cons_append] at hfloat ⊢
  unfold Reader.optionalFloat
  rw [bind_of_ok (peek_cons hbefore hspace _), if_neg (fun heq => hb (Option.some.inj heq))]
  exact hfloat

end PacketTrace.Json.Reader

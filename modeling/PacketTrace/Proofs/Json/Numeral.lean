import PacketTrace.Proofs.Json.Reader
import PacketTrace.Proofs.Text.Numeral

/-!
# `Proofs.Json.Numeral` — numbers that were written are read back

A number is written as a numeral: digits, perhaps with a sign, a fraction and an exponent. An exponent may be
written in several ways (`IsExponent`). `numeral_bytes` says that a reader finds these parts again, and stops
behind them. What the numeral is worth is another question. A whole number that fits into a word is worth just
that (`yields_ofCount`). For a float the value is computed with rounding, so all that holds in general is that it
is always the same (`yields_float`).

## Contents
- **Numerals.** `Numeral.WrittenAs` for the ways to write one, of which `Numeral.bytes` is one, and
  `numeral_bytes`.
- **Readers of numbers.** `number`, `count` and `float` on a numeral.
- **Counts.** `absorb` on the digits of a word, and `yields_count`.
-/

namespace PacketTrace.Json.Reader

open Utf8
open PacketTrace.Numeral (Digits toNat_of_isDigit le_ofDigitChars digits_decimal lead_decimal)

variable {α : Type}

/-! ## Numerals -/

/-- One digit or more. -/
structure IsRun (ds : List UInt8) : Prop where
  ne_nil : ds ≠ []
  isDigit : ∀ d ∈ ds, isDigit d = true

/-- How a fraction is written, if there is one. -/
def fractionBytes : Option (List UInt8) → Bytes
  | none => []
  | some ds => point :: ds

/-- Whether a byte marks an exponent. -/
def IsMarker (b : UInt8) : Prop := b = lowerE ∨ b = upperE

/-- How an exponent may be written, if there is one. The sign may be left out unless it is negative. -/
inductive IsExponent : Option (Bool × List UInt8) → Bytes → Prop where
  | none : IsExponent none []
  | negative {marker : UInt8} (h : IsMarker marker) (ds : List UInt8) :
      IsExponent (some (true, ds)) (marker :: minus :: ds)
  | positive {marker : UInt8} (h : IsMarker marker) (ds : List UInt8) :
      IsExponent (some (false, ds)) (marker :: plus :: ds)
  | unsigned {marker : UInt8} (h : IsMarker marker) (ds : List UInt8) :
      IsExponent (some (false, ds)) (marker :: ds)

/-- How an exponent is written, if there is one, with a small marker and always with its sign. -/
def exponentBytes : Option (Bool × List UInt8) → Bytes
  | none => []
  | some (negative, ds) => lowerE :: (if negative then minus else plus) :: ds

theorem isExponent_exponentBytes (exponent : Option (Bool × List UInt8)) :
    IsExponent exponent (exponentBytes exponent) := by
  cases exponent with
  | none => exact .none
  | some e =>
    obtain ⟨negative, ds⟩ := e
    cases negative with
    | true => exact .negative (Or.inl rfl) ds
    | false => exact .positive (Or.inl rfl) ds

/-- A number with its exponent written in a given way. -/
def Numeral.withExponent (n : Numeral) (e : Bytes) : Bytes :=
  (if n.negative then [minus] else []) ++ (n.whole ++ (fractionBytes n.fraction ++ e))

/-- How a number is written. -/
def Numeral.bytes (n : Numeral) : Bytes := n.withExponent (exponentBytes n.exponent)

/-- Digits wherever there must be digits, and no zero in front of others. -/
structure Numeral.WellFormed (n : Numeral) : Prop where
  whole : IsRun n.whole
  lead : n.whole.head? = some zero → n.whole.length = 1
  fraction : ∀ ds ∈ n.fraction, IsRun ds
  exponent : ∀ e ∈ n.exponent, IsRun e.2

/-- **How a number may be written.** -/
inductive Numeral.WrittenAs (n : Numeral) : Bytes → Prop where
  | mk {e : Bytes} (hformed : n.WellFormed) (he : IsExponent n.exponent e) : n.WrittenAs (n.withExponent e)

theorem Numeral.WellFormed.writtenAs {n : Numeral} (h : n.WellFormed) : n.WrittenAs n.bytes :=
  .mk h (isExponent_exponentBytes n.exponent)

theorem digits_append {ds rest : Bytes} (h : IsRun ds)
    (hrest : ∀ b ∈ rest.head?, isDigit b = false) : digits (ds ++ rest) = .ok (ds, rest) := by
  have htake : (ds ++ rest).takeWhile isDigit = ds := by
    rw [List.takeWhile_append_of_pos h.isDigit]
    cases rest with
    | nil => rw [List.takeWhile_nil, List.append_nil]
    | cons b rest =>
      rw [List.takeWhile_cons_of_neg (by rw [hrest b rfl]; decide), List.append_nil]
  have hdrop : (ds ++ rest).dropWhile isDigit = rest := by
    rw [List.dropWhile_append_of_pos h.isDigit]
    cases rest with
    | nil => rfl
    | cons b rest => rw [List.dropWhile_cons_of_neg (by rw [hrest b rfl]; decide)]
  unfold digits
  rw [htake, hdrop]
  cases ds with
  | nil => exact absurd rfl h.ne_nil
  | cons d ds => exact if_pos (h.isDigit d List.mem_cons_self)

theorem accept_cons (b : UInt8) (rest : Bytes) : accept b (b :: rest) = .ok (true, rest) :=
  if_pos rfl

theorem accept_of_ne {b : UInt8} {rest : Bytes} (h : rest.head? ≠ some b) :
    accept b rest = .ok (false, rest) := by
  cases rest with
  | nil => rfl
  | cons c rest => exact if_neg fun heq => h (by rw [heq]; rfl)

/-- What cannot continue a number begins none of its parts. -/
theorem Ends.head?_ne {rest : Bytes} (h : Ends rest) {b : UInt8} (hb : continuesNumber b = true) :
    rest.head? ≠ some b := by
  intro heq
  rw [h b heq] at hb
  cases hb

theorem Ends.not_digit {rest : Bytes} (h : Ends rest) : ∀ b ∈ rest.head?, isDigit b = false := by
  intro b hb
  have hends := h b hb
  unfold continuesNumber at hends
  cases hdigit : isDigit b with
  | false => rfl
  | true => rw [hdigit] at hends; cases hends

/-- The fraction is found if there is one. -/
theorem fraction_bind {fraction : Option (List UInt8)} (h : ∀ ds ∈ fraction, IsRun ds) {rest : Bytes}
    (hpoint : rest.head? ≠ some point) (hrest : ∀ b ∈ rest.head?, isDigit b = false)
    (next : Option (List UInt8) → Reader α) :
    (accept point >>= fun marked =>
        if marked = true then some <$> digits >>= next else pure none >>= next)
      (fractionBytes fraction ++ rest) = next fraction rest := by
  cases fraction with
  | none =>
    show (accept point >>= _) rest = _
    rw [bind_of_ok (accept_of_ne hpoint), if_neg Bool.false_ne_true]
    rfl
  | some ds =>
    have hdigits : (some <$> digits) (ds ++ rest) = .ok (some ds, rest) := by
      rw [map_apply, digits_append (h ds rfl) hrest]
      rfl
    show (accept point >>= _) (point :: (ds ++ rest)) = _
    rw [bind_of_ok (accept_cons _ _), if_pos rfl, bind_of_ok hdigits]

/-- A marker is found, whichever it is. -/
theorem marker_bind {marker : UInt8} (h : IsMarker marker) (next : Bool → Reader α) (rest : Bytes) :
    (accept lowerE >>= fun marked =>
        if marked = true then pure true >>= next else accept upperE >>= next)
      (marker :: rest) = next true rest := by
  rcases h with rfl | rfl
  · rw [bind_of_ok (accept_cons _ _), if_pos rfl]
    rfl
  · have hne : (upperE :: rest).head? ≠ some lowerE := fun heq => absurd (Option.some.inj heq) (by decide)
    rw [bind_of_ok (accept_of_ne hne), if_neg Bool.false_ne_true, bind_of_ok (accept_cons _ _)]

theorem marker_bind_of_ends {rest : Bytes} (hrest : Ends rest) (next : Bool → Reader α) :
    (accept lowerE >>= fun marked =>
        if marked = true then pure true >>= next else accept upperE >>= next) rest = next false rest := by
  rw [bind_of_ok (accept_of_ne (hrest.head?_ne rfl)), if_neg Bool.false_ne_true,
    bind_of_ok (accept_of_ne (hrest.head?_ne rfl))]

/-- What follows the whole part begins with no digit. -/
theorem IsExponent.not_digit {exponent : Option (Bool × List UInt8)} {e : Bytes}
    (h : IsExponent exponent e) {rest : Bytes} (hrest : Ends rest) :
    ∀ b ∈ (e ++ rest).head?, isDigit b = false ∧ b ≠ point := by
  have hmarker {marker : UInt8} (h : IsMarker marker) : isDigit marker = false ∧ marker ≠ point := by
    rcases h with rfl | rfl
    · exact ⟨rfl, by decide⟩
    · exact ⟨rfl, by decide⟩
  intro b hb
  cases h with
  | none =>
    refine ⟨hrest.not_digit b hb, ?_⟩
    rintro rfl
    exact hrest.head?_ne rfl hb
  | negative h ds =>
    cases hb
    exact hmarker h
  | positive h ds =>
    cases hb
    exact hmarker h
  | unsigned h ds =>
    cases hb
    exact hmarker h

theorem not_digit_fraction (fraction : Option (List UInt8)) {rest : Bytes}
    (hrest : ∀ b ∈ rest.head?, isDigit b = false) :
    ∀ b ∈ (fractionBytes fraction ++ rest).head?, isDigit b = false := by
  intro b hb
  cases fraction with
  | none => exact hrest b hb
  | some ds =>
    cases hb
    rfl

/-- A run of digits begins with no other byte. -/
theorem IsRun.head?_ne {ds : List UInt8} (h : IsRun ds) {b : UInt8} (hb : Reader.isDigit b = false)
    (rest : Bytes) : (ds ++ rest).head? ≠ some b := by
  cases ds with
  | nil => exact absurd rfl h.ne_nil
  | cons d ds =>
    intro heq
    cases heq
    rw [h.isDigit b List.mem_cons_self] at hb
    cases hb

/-- **The parts of a number are found.** -/
theorem numeral_bytes {n : Numeral} {bytes : Bytes} (h : n.WrittenAs bytes) {rest : Bytes}
    (hrest : Ends rest) : numeral (bytes ++ rest) = .ok (n, rest) := by
  obtain ⟨hformed, he⟩ := h
  rename_i e
  obtain ⟨negative, whole, fraction, exponent⟩ := n
  have hbehind := he.not_digit hrest
  have hpoint : (e ++ rest).head? ≠ some point := fun heq => (hbehind point heq).2 rfl
  have hdigit := fun b hb => (hbehind b hb).1
  have hsign : accept minus (Numeral.withExponent ⟨negative, whole, fraction, exponent⟩ e ++ rest) =
      .ok (negative, whole ++ (fractionBytes fraction ++ (e ++ rest))) := by
    unfold Numeral.withExponent
    rw [List.append_assoc, List.append_assoc, List.append_assoc]
    cases negative with
    | true => exact accept_cons _ _
    | false => exact accept_of_ne (hformed.whole.head?_ne rfl _)
  have hlead : ¬ (decide (whole.head? = some zero) && decide (whole.length ≠ 1)) = true := by
    simpa using hformed.lead
  unfold numeral
  dsimp only
  rw [bind_of_ok hsign, bind_of_ok (digits_append hformed.whole (not_digit_fraction fraction hdigit)),
    if_neg hlead, fraction_bind hformed.fraction hpoint hdigit]
  have hdigits {signed : Bool} {ds : List UInt8} (hds : some (signed, ds) = exponent) :
      digits (ds ++ rest) = .ok (ds, rest) :=
    digits_append (hformed.exponent _ hds.symm) hrest.not_digit
  cases he with
  | none =>
    show (accept lowerE >>= _) rest = _
    rw [marker_bind_of_ends hrest]
    rfl
  | negative hmarker ds =>
    show (accept lowerE >>= _) (_ :: (minus :: (ds ++ rest))) = _
    rw [marker_bind hmarker, if_pos rfl, bind_of_ok (accept_cons _ _), if_neg (by decide),
      bind_of_ok (hdigits rfl)]
    rfl
  | positive hmarker ds =>
    have hplus : (plus :: (ds ++ rest)).head? ≠ some minus :=
      fun heq => absurd (Option.some.inj heq) (by decide)
    show (accept lowerE >>= _) (_ :: (plus :: (ds ++ rest))) = _
    rw [marker_bind hmarker, if_pos rfl, bind_of_ok (accept_of_ne hplus), Bool.not_false, if_pos rfl,
      bind_of_ok (accept_cons _ _), bind_of_ok (hdigits rfl)]
    rfl
  | unsigned hmarker ds =>
    have hrun : IsRun ds := hformed.exponent _ rfl
    show (accept lowerE >>= _) (_ :: (ds ++ rest)) = _
    rw [marker_bind hmarker, if_pos rfl, bind_of_ok (accept_of_ne (hrun.head?_ne rfl _)), Bool.not_false,
      if_pos rfl, bind_of_ok (accept_of_ne (hrun.head?_ne rfl _)), bind_of_ok (hdigits rfl)]
    rfl

/-! ## Readers of numbers -/

theorem isSpace_of_isDigit {d : UInt8} (h : isDigit d = true) : isSpace d = false := by
  cases hspace : isSpace d with
  | false => rfl
  | true =>
    simp only [isSpace, Bool.or_eq_true, beq_iff_eq] at hspace
    rcases hspace with ((rfl | rfl) | rfl) | rfl
    · exact absurd h (by decide)
    · exact absurd h (by decide)
    · exact absurd h (by decide)
    · exact absurd h (by decide)

/-- The first byte tells that a number comes. -/
theorem Numeral.WrittenAs.begins {n : Numeral} {bytes : Bytes} (h : n.WrittenAs bytes) :
    ∃ b rest, bytes = b :: rest ∧ startsNumber b = true ∧ isSpace b = false := by
  obtain ⟨hformed, -⟩ := h
  obtain ⟨negative, whole, fraction, exponent⟩ := n
  cases negative with
  | true => exact ⟨minus, _, rfl, rfl, rfl⟩
  | false =>
    have hwhole : IsRun whole := hformed.whole
    cases whole with
    | nil => exact absurd rfl hwhole.ne_nil
    | cons d ds =>
      have hdigit : isDigit d = true := hwhole.isDigit d List.mem_cons_self
      refine ⟨d, _, rfl, ?_, isSpace_of_isDigit hdigit⟩
      rw [startsNumber, hdigit, Bool.or_true]

theorem number_bytes {n : Numeral} {bytes : Bytes} (h : n.WrittenAs bytes) {rest : Bytes}
    (hrest : Ends rest) : number (bytes ++ rest) = n.value.map fun x => (x, rest) := by
  unfold number
  rw [bind_of_ok (numeral_bytes h hrest)]
  cases n.value with
  | error fault => rfl
  | ok x => rfl

/-- What a reader does with a number, if it expects one. -/
theorem yields_number {n : Numeral} {bytes : Bytes} (h : n.WrittenAs bytes) {use : Number → Reader α}
    {outcome : Number → Except ReadError α} {other : Reader α}
    (huse : ∀ x rest, use x rest = (outcome x).map fun a => (a, rest)) :
    Yields (do if startsNumber (← peekByte) then number >>= use else other) bytes
      (n.value >>= outcome) := by
  intro before rest hbefore hrest
  obtain ⟨b, tail, hbytes, hstarts, hspace⟩ := h.begins
  have hnumber := number_bytes h hrest
  rw [hbytes, List.cons_append] at hnumber ⊢
  rw [bind_of_ok (peekByte_cons hbefore hspace _), if_pos hstarts]
  cases hvalue : n.value with
  | error fault =>
    rw [hvalue] at hnumber
    rw [bind_of_error hnumber]
    rfl
  | ok x =>
    rw [hvalue] at hnumber
    rw [bind_of_ok hnumber]
    exact huse x rest

/-- The value of a number as a count. -/
def Number.toCount : Number → Except ReadError Nat
  | .word n => .ok n
  | .real _ => .error .badContent

/-- The value of a number as a float. -/
def Number.toFloat : Number → Except ReadError Float
  | .word n => .ok (Float.ofNat n)
  | .real x => .ok x

theorem yields_count {n : Numeral} {bytes : Bytes} (h : n.WrittenAs bytes) :
    Yields count bytes (n.value >>= Number.toCount) := by
  apply yields_number h
  intro x rest
  cases x with
  | word n => rfl
  | real x => rfl

theorem yields_float {n : Numeral} {bytes : Bytes} (h : n.WrittenAs bytes) :
    Yields float bytes (n.value >>= Number.toFloat) := by
  apply yields_number h
  intro x rest
  cases x with
  | word n => rfl
  | real x => rfl

/-! ## Digits -/

/-- A digit is one byte, of the same value. -/
theorem encode_digit {c : Char} (h : c.isDigit = true) (t : Text) :
    ∃ d, encode (c :: t) = d :: encode t ∧ isDigit d = true ∧ digitValue d = c.toNat - 48 ∧
      (d = zero ↔ c = '0') := by
  obtain ⟨hlow, hhigh⟩ := toNat_of_isDigit h
  have hbyte : (UInt8.ofNat c.toNat).toNat = c.toNat := UInt8.toNat_ofNat_of_lt' (by
    show c.toNat < 256
    omega)
  refine ⟨.ofNat c.toNat, ?_, ?_, ?_, ?_⟩
  · rw [encode_cons, utf8EncodeChar_of_ascii (by omega), List.singleton_append]
  · simp [isDigit, UInt8.le_iff_toNat_le, hbyte]
    omega
  · rw [digitValue, hbyte]
  · rw [← UInt8.toNat_inj, hbyte, ← Char.toNat_inj]
    rfl

/-- One more digit is taken up in the same way whether it is a character or a byte. -/
theorem append_digit {c : Char} {d : UInt8} (h : digitValue d = c.toNat - 48) (n : Nat) :
    n * 10 + digitValue d = 10 * n + (c.toNat - '0'.toNat) := by
  rw [h, Nat.mul_comm]
  rfl

/-- The number of a run of digits, digit by digit. -/
theorem foldl_encode_digits {ds : Text} (h : ∀ c ∈ ds, c.isDigit = true) (n : Nat) :
    (encode ds).foldl (fun e d => e * 10 + digitValue d) n = Nat.ofDigitChars 10 ds n := by
  induction ds generalizing n with
  | nil => rfl
  | cons c ds ih =>
    obtain ⟨d, heq, -, hvalue, -⟩ := encode_digit (h c List.mem_cons_self) ds
    rw [heq, List.foldl_cons, append_digit hvalue, ih fun c hc => h c (List.mem_cons_of_mem _ hc),
      Nat.ofDigitChars_cons]

theorem isRun_encode {ds : Text} (h : Digits ds) : IsRun (encode ds) where
  ne_nil := by
    cases ds with
    | nil => exact absurd rfl h.ne_nil
    | cons c ds =>
      obtain ⟨d, heq, -⟩ := encode_digit (h.isDigit c List.mem_cons_self) ds
      rw [heq]
      exact List.cons_ne_nil d _
  isDigit := by
    have hall := h.isDigit
    clear h
    induction ds with
    | nil => intro d hd; cases hd
    | cons c ds ih =>
      obtain ⟨d, heq, hd, -⟩ := encode_digit (hall c List.mem_cons_self) ds
      rw [heq, List.forall_mem_cons]
      exact ⟨hd, ih fun c hc => hall c (List.mem_cons_of_mem _ hc)⟩

theorem length_encode_digits {ds : Text} (h : ∀ c ∈ ds, c.isDigit = true) :
    (encode ds).length = ds.length := by
  induction ds with
  | nil => rfl
  | cons c ds ih =>
    obtain ⟨d, heq, -⟩ := encode_digit (h c List.mem_cons_self) ds
    rw [heq, List.length_cons, ih fun c hc => h c (List.mem_cons_of_mem _ hc), List.length_cons]

/-- No zero in front of other digits. -/
theorem lead_encode_digits {ds : Text} (h : ∀ c ∈ ds, c.isDigit = true)
    (hlead : ds.head? = some '0' → ds.length = 1) :
    (encode ds).head? = some zero → (encode ds).length = 1 := by
  rw [length_encode_digits h]
  intro hhead
  cases ds with
  | nil => cases hhead
  | cons c ds =>
    obtain ⟨d, heq, -, -, hzero⟩ := encode_digit (h c List.mem_cons_self) ds
    rw [heq] at hhead
    apply hlead
    rw [List.head?_cons, hzero.mp (Option.some.inj hhead)]

/-! ## Counts -/

/-- The digits of a word are taken up one by one. -/
theorem absorb_encode {ds : Text} (h : ∀ c ∈ ds, c.isDigit = true) {n : Nat}
    (hword : Nat.ofDigitChars 10 ds n ≤ maxWord) :
    absorb n (encode ds) = (Nat.ofDigitChars 10 ds n, 0) := by
  induction ds generalizing n with
  | nil => rfl
  | cons c ds ih =>
    obtain ⟨d, heq, -, hvalue, -⟩ := encode_digit (h c List.mem_cons_self) ds
    rw [Nat.ofDigitChars_cons] at hword ⊢
    rw [heq, absorb, append_digit hvalue, if_pos (Nat.le_trans (le_ofDigitChars _ ds) hword),
      ih (fun c hc => h c (List.mem_cons_of_mem _ hc)) hword]

/-- What has been taken up stays a word. -/
theorem absorb_le {n : Nat} (hn : n ≤ maxWord) (ds : List UInt8) : (absorb n ds).1 ≤ maxWord := by
  induction ds generalizing n with
  | nil => exact hn
  | cons d ds ih =>
    unfold absorb
    split
    · rename_i hnext
      exact ih hnext
    · exact hn

/-- The numeral of a count. -/
def Numeral.ofCount (n : Nat) : Numeral :=
  { negative := false, whole := encode (PacketTrace.Numeral.decimal n), fraction := none, exponent := none }

theorem Numeral.wellFormed_ofCount (n : Nat) : (ofCount n).WellFormed where
  whole := isRun_encode (digits_decimal n)
  lead := lead_encode_digits (digits_decimal n).isDigit (lead_decimal n)
  fraction _ h := by cases h
  exponent _ h := by cases h

/-- A whole number that is a word is worth itself. -/
theorem Numeral.value_ofCount {n : Nat} (h : n ≤ maxWord) : (ofCount n).value = .ok (.word n) := by
  have hvalue : Nat.ofDigitChars 10 (PacketTrace.Numeral.decimal n) 0 = n :=
    Nat.ofDigitChars_toDigits (by decide) (by decide)
  have habsorb : absorb 0 (ofCount n).whole = (n, 0) := by
    have hdigits := absorb_encode (digits_decimal n).isDigit (n := 0) (by rw [hvalue]; exact h)
    rw [hvalue] at hdigits
    exact hdigits
  unfold value
  rw [habsorb]
  rfl

theorem Numeral.bytes_ofCount (n depth : Nat) :
    (ofCount n).bytes = encode (PacketTrace.Json.ofCount n depth) := by
  unfold bytes
  exact List.append_nil _

theorem begins_ofCount (n depth : Nat) : Begins (encode (ofCount n depth)) := by
  obtain ⟨b, rest, hbytes, hstarts, hspace⟩ := (Numeral.wellFormed_ofCount n).writtenAs.begins
  refine ⟨b, rest, (Numeral.bytes_ofCount n depth).symm.trans hbytes, hspace, ?_⟩
  rintro rfl
  exact absurd hstarts (by decide)

/-- **A count is read back.** -/
theorem yields_ofCount {n : Nat} (h : n ≤ maxWord) (depth : Nat) :
    Yields count (encode (ofCount n depth)) (.ok n) := by
  rw [← Numeral.bytes_ofCount n depth]
  have hyields := yields_count (Numeral.wellFormed_ofCount n).writtenAs
  rw [Numeral.value_ofCount h] at hyields
  exact hyields

end PacketTrace.Json.Reader

import PacketTrace.Proofs.Decimal.Binary
import PacketTrace.Proofs.Decimal.Shortest
import PacketTrace.Proofs.Json.Value

/-!
# `Proofs.Json.FloatText` — floats that were written

A float that is finite is written as a numeral, in place or with an exponent, and any other float as
`null`. A reader may find another float than was written, since it rounds twice; but it always finds the
same one, which is what `reread` gives.

## Contents
- **Numerals.** `pointNumeral` and `exponentNumeral`, the two forms of a shortest decimal, and what a finite
  float is written as (`exists_numeral_floatText`).
- **Reading.** `reread`, and `rereadTime` for a float that may be missing.
-/

namespace PacketTrace.Json.Reader

open Utf8
open PacketTrace.Numeral (Digits digits_decimal digits_zero)

/-! ## Numerals -/

/-- How a number below zero begins. -/
def signText (negative : Bool) : Text := if negative then ['-'] else []

/-- Digits around a point. -/
def pointNumeral (negative : Bool) (whole fraction : Text) : Numeral :=
  { negative, whole := encode whole, fraction := some (encode fraction), exponent := none }

/-- A first digit, perhaps more digits behind a point, and an exponent. -/
def exponentNumeral (negative : Bool) (first fraction : Text) (e : Int) : Numeral :=
  { negative
    whole := encode first
    fraction := if fraction.isEmpty then none else some (encode fraction)
    exponent := some (decide (e < 0), encode (PacketTrace.Numeral.decimal e.natAbs)) }

theorem wellFormed_pointNumeral (negative : Bool) {whole fraction : Text} (hwhole : Digits whole)
    (hlead : whole.head? = some '0' → whole.length = 1) (hfraction : Digits fraction) :
    (pointNumeral negative whole fraction).WellFormed where
  whole := isRun_encode hwhole
  lead := lead_encode_digits hwhole.isDigit hlead
  fraction := by
    rintro ds ⟨⟩
    exact isRun_encode hfraction
  exponent := by rintro e ⟨⟩

theorem wellFormed_exponentNumeral (negative : Bool) {first fraction : Text} (hfirst : Digits first)
    (hone : first.length = 1) (hfraction : ∀ c ∈ fraction, c.isDigit = true) (e : Int) :
    (exponentNumeral negative first fraction e).WellFormed where
  whole := isRun_encode hfirst
  lead := lead_encode_digits hfirst.isDigit fun _ => hone
  fraction := by
    intro ds hds
    cases fraction with
    | nil => cases hds
    | cons c fraction =>
      cases hds
      exact isRun_encode ⟨List.cons_ne_nil c fraction, hfraction⟩
  exponent := by
    rintro e ⟨⟩
    exact isRun_encode (digits_decimal _)

theorem encode_signText (negative : Bool) :
    encode (signText negative) = if negative then [minus] else [] := by
  cases negative <;> rfl

theorem bytes_pointNumeral (negative : Bool) (whole fraction : Text) :
    (pointNumeral negative whole fraction).bytes =
      encode (signText negative ++ (whole ++ '.' :: fraction)) := by
  rw [encode_append, encode_signText, encode_append, encode_cons]
  show _ ++ (encode whole ++ (point :: encode fraction ++ [])) = _
  rw [List.append_nil]
  rfl

theorem bytes_exponentNumeral (negative : Bool) (first fraction : Text) (e : Int) :
    (exponentNumeral negative first fraction e).bytes =
      encode (signText negative ++ (first ++ (if fraction.isEmpty then [] else '.' :: fraction) ++
        'e' :: (if e < 0 then '-' else '+') :: PacketTrace.Numeral.decimal e.natAbs)) := by
  have hexponent : encode ('e' :: (if e < 0 then '-' else '+') :: PacketTrace.Numeral.decimal e.natAbs) =
      lowerE :: (if decide (e < 0) then minus else plus) ::
        encode (PacketTrace.Numeral.decimal e.natAbs) := by
    rw [encode_cons, encode_cons]
    by_cases he : e < 0
    · simp only [he]
      rfl
    · simp only [he]
      rfl
  rw [encode_append, encode_signText, encode_append, encode_append, List.append_assoc, hexponent]
  cases fraction with
  | nil => rfl
  | cons c fraction =>
    simp only [List.isEmpty_cons, Bool.false_eq_true, if_false]
    rw [encode_cons '.']
    rfl

theorem isDigit_replicate (n : Nat) : ∀ c ∈ List.replicate n '0', c.isDigit = true := by
  intro c hc
  rw [List.eq_of_mem_replicate hc]
  rfl

/-- The two forms in which a shortest decimal is written. With a point there are few digits in front of it. -/
inductive FormOf (s : Scientific) : Numeral → Prop where
  | point {negative : Bool} {whole fraction : Text} (hwhole : Digits whole) (hshort : whole.length ≤ 16) :
      FormOf s (pointNumeral negative whole fraction)
  | exponent (negative : Bool) :
      FormOf s (exponentNumeral negative (s.digits.take 1) (s.digits.drop 1) s.exponent)

/-- **A shortest decimal is written as a numeral** in one of the two forms. -/
theorem exists_numeral_scientific {s : Scientific} (h : s.Proper) (negative : Bool) :
    ∃ n : Numeral, n.WellFormed ∧ FormOf s n ∧ n.bytes = encode (signText negative ++ scientific s) := by
  have hdigits := h.digits
  have hpos : 0 < s.digits.length := List.length_pos_iff.mpr hdigits.ne_nil
  have hform {whole fraction : Text} (hwhole : Digits whole) (hshort : whole.length ≤ 16)
      (hlead : whole.head? = some '0' → whole.length = 1) (hfraction : Digits fraction) :
      ∃ n : Numeral, n.WellFormed ∧ FormOf s n ∧
        n.bytes = encode (signText negative ++ (whole ++ '.' :: fraction)) :=
    ⟨_, wellFormed_pointNumeral negative hwhole hlead hfraction, .point hwhole hshort,
      bytes_pointNumeral negative whole fraction⟩
  unfold scientific
  dsimp only
  split
  · rename_i hplain
    obtain ⟨-, hlarge⟩ := Bool.and_eq_true_iff.mp hplain
    have hweight : s.exponent < 16 := of_decide_eq_true hlarge
    split
    · -- all digits stand behind the point
      have hfraction : Digits (List.replicate (-s.exponent - 1).toNat '0' ++ s.digits) :=
        hdigits.behind (isDigit_replicate _)
      rw [List.append_assoc "0.".toList]
      exact hform digits_zero (by decide) (fun _ => rfl) hfraction
    split
    · -- all digits stand in front of it, and perhaps some zeros
      refine hform (hdigits.append (isDigit_replicate _)) ?_ ?_ digits_zero
      · rw [List.length_append, List.length_replicate]
        omega
      · intro hhead
        have hfirst : s.digits.head? = some '0' := by
          rw [← hhead, List.head?_append, Option.or_of_isSome (List.isSome_head?.mpr hdigits.ne_nil)]
        obtain ⟨hone, hexponent⟩ := h.lead hfirst
        rw [List.length_append, List.length_replicate, hone, hexponent]
        rfl
    · rename_i hsmall hshort
      have hlength : (s.exponent + 1).toNat < s.digits.length := by omega
      have hwhole : 0 < (s.exponent + 1).toNat := by omega
      refine hform (hdigits.take hwhole) ?_ ?_ (hdigits.drop hlength)
      · rw [List.length_take]
        omega
      · intro hhead
        rw [List.head?_take, if_neg (Nat.ne_of_gt hwhole)] at hhead
        obtain ⟨hone, -⟩ := h.lead hhead
        omega
  · have hlength : (s.digits.take 1).length = 1 := by
      rw [List.length_take]
      omega
    refine ⟨_, ?_, .exponent negative, bytes_exponentNumeral _ _ _ _⟩
    exact wellFormed_exponentNumeral negative (hdigits.take Nat.one_pos) hlength
      (fun c hc => hdigits.isDigit c (List.mem_of_mem_drop hc)) s.exponent

/-- The decimal that is written for a number. -/
def shortest (m : Nat) (q : Int) : Scientific := if m = 0 then ⟨['0'], 0⟩ else Shortest.ofValue m q

theorem proper_shortest (m : Nat) (q : Int) : (shortest m q).Proper := by
  unfold shortest
  split
  · exact ⟨digits_zero, fun _ => ⟨rfl, rfl⟩⟩
  · rename_i hm
    exact Shortest.proper_ofValue (Nat.pos_of_ne_zero hm) q

/-- **A finite float is written as a numeral.** -/
theorem exists_numeral_floatText {x : Float} {negative : Bool} {m : Nat} {q : Int}
    (hx : Binary.ofFloat x = .finite negative m q) :
    ∃ n : Numeral, n.WellFormed ∧ FormOf (shortest m q) n ∧ n.bytes = encode (floatText x) := by
  have htext : floatText x = signText negative ++ scientific (shortest m q) := by
    unfold floatText shortest
    rw [hx]
    dsimp only
    by_cases hm : m = 0
    · rw [if_pos hm, if_pos hm]
      rfl
    · rw [if_neg hm, if_neg hm]
      rfl
  rw [htext]
  exact exists_numeral_scientific (proper_shortest m q) negative

/-- Any other float is written as `null`. -/
theorem floatText_of_not_finite {x : Float} (h : ¬ x.isFinite = true) :
    floatText x = "null".toList := by
  unfold floatText
  cases hx : Binary.ofFloat x with
  | notANumber => rfl
  | infinite negative => rfl
  | finite negative m q => exact absurd ((isFinite_iff x).mpr ⟨negative, m, q, hx⟩) h

theorem isJson_ofFloat (x : Float) : IsJsonDoc (ofFloat x) := by
  intro depth
  show IsJson (encode (floatText x))
  by_cases hfinite : x.isFinite = true
  · obtain ⟨negative, m, q, hx⟩ := (isFinite_iff x).mp hfinite
    obtain ⟨n, hformed, -, hbytes⟩ := exists_numeral_floatText hx
    rw [← hbytes]
    exact .number hformed.writtenAs
  · rw [floatText_of_not_finite hfinite]
    exact .word (w := "null") (Or.inl rfl)

/-! ## Reading -/

/-- What a reader makes of a float that was written. -/
def reread (x : Float) : Except ReadError Float := (float (encode (floatText x))).map (·.1)

/-- At the end of a text a float is read as `reread` reads it. -/
theorem reread_of_yields {x : Float} {outcome : Except ReadError Float}
    (h : Yields float (encode (floatText x)) outcome) : reread x = outcome := by
  have halone := h [] [] rfl ends_nil
  rw [List.nil_append, List.append_nil] at halone
  unfold reread
  rw [halone]
  cases outcome with
  | error fault => rfl
  | ok y => rfl

/-- **A float is read in the same way wherever it stands.** -/
theorem yields_ofFloat (x : Float) (depth : Nat) :
    Yields float (encode (ofFloat x depth)) (reread x) := by
  show Yields float (encode (floatText x)) (reread x)
  by_cases hfinite : x.isFinite = true
  · obtain ⟨negative, m, q, hx⟩ := (isFinite_iff x).mp hfinite
    obtain ⟨n, hformed, -, hbytes⟩ := exists_numeral_floatText hx
    have hyields := yields_float hformed.writtenAs
    rw [hbytes] at hyields
    rw [reread_of_yields hyields]
    exact hyields
  · have hyields := yields_float_null
    rw [show ascii "null" = encode (floatText x) by rw [floatText_of_not_finite hfinite]; rfl] at hyields
    rw [reread_of_yields hyields]
    exact hyields

theorem reread_of_not_finite {x : Float} (h : ¬ x.isFinite = true) :
    reread x = .error .badContent := by
  unfold reread
  rw [floatText_of_not_finite h]
  exact congrArg (Except.map (·.1)) (yields_float_null [] [] rfl ends_nil)

/-- What a reader makes of a float that may be missing: `null` stands for a missing one. -/
def rereadTime : Option Float → Except ReadError (Option Float)
  | none => .ok none
  | some x => if x.isFinite then some <$> reread x else .ok none

theorem yields_optionalFloat (x : Float) (depth : Nat) :
    Yields optionalFloat (encode (ofFloat x depth)) (rereadTime (some x)) := by
  rw [rereadTime]
  by_cases hfinite : x.isFinite = true
  · rw [if_pos hfinite]
    have hyields := yields_ofFloat x depth
    obtain ⟨negative, m, q, hx⟩ := (isFinite_iff x).mp hfinite
    obtain ⟨n, hformed, -, hbytes⟩ := exists_numeral_floatText hx
    obtain ⟨b, tail, hhead, hstarts, hspace⟩ := hformed.writtenAs.begins
    have htext : encode (ofFloat x depth) = b :: tail := by
      rw [← hhead, hbytes]
      rfl
    rw [htext] at hyields ⊢
    refine hyields.optionalFloat ?_ hspace
    rintro rfl
    exact absurd hstarts (by decide)
  · rw [if_neg hfinite]
    show Yields optionalFloat (encode (floatText x)) _
    rw [floatText_of_not_finite hfinite]
    exact yields_optionalFloat_null

end PacketTrace.Json.Reader

import Mathlib
import PacketTrace.Proofs.Decimal.Size
import PacketTrace.Proofs.Float.Magnitude
import PacketTrace.Proofs.Json.FloatText

/-!
# `Proofs.Json.FloatValue` — every finite float can be read

A numeral is refused if its value is rounded to infinity. A reader rounds the significand, the power of ten and
their product, so this might happen to a numeral that was written for a finite float; but it does not. Most
products are below the largest float by more than these errors. The few others are computed one by one, and
the only one among them that is infinite belongs to no shortest form.

## Contents
- **Products.** `isInf_product`.
- **Values.** `exists_scale`, and the value of a numeral in either form.
- **Floats.** `exists_reread`.
-/

namespace PacketTrace.Json.Reader

open Utf8
open PacketTrace.Numeral (Digits digits_decimal le_ofDigitChars)

/-! ## Products -/

/-- The largest float and the number halfway to the next power of two are whole numbers. -/
def largestWhole : Nat := (2 ^ 53 - 1) * 2 ^ 971

def halfwayWhole : Nat := (2 ^ 54 - 1) * 2 ^ 970

theorem largest_eq : largest = largestWhole := by
  unfold largest largestWhole
  rw [zpow_ofNat, Nat.cast_mul, Nat.cast_pow]
  congr 1
  norm_num

theorem halfway_eq : Scientific.halfway = halfwayWhole := by
  unfold Scientific.halfway halfwayWhole
  rw [zpow_ofNat, Nat.cast_mul, Nat.cast_pow]
  congr 1
  norm_num

theorem nearTo_powerOfTen {e : Nat} (he : e ≤ 308) : NearTo (powerOfTen e) (10 ^ e) := by
  have hpower : 10 ^ 308 < largestWhole := by decide +kernel
  have hlt : ((1 : Nat) : ℚ) * 10 ^ e < largest := by
    rw [largest_eq, Nat.cast_one, one_mul]
    calc (10 : ℚ) ^ e ≤ 10 ^ 308 := pow_le_pow_right₀ (by norm_num) he
      _ = ((10 ^ 308 : Nat) : ℚ) := by rw [Nat.cast_pow, Nat.cast_ofNat]
      _ < _ := Nat.cast_lt.mpr hpower
  have hnear := nearTo_ofScientific (by decide) he hlt
  rw [Nat.cast_one, one_mul] at hnear
  exact hnear

theorem mul_le_of_rounded {n p v w : ℚ} (hn : 0 ≤ n) (hv : v ≤ n + n / 2 ^ 49)
    (hw : w ≤ p + p / 2 ^ 49) (hpos : 0 ≤ w) : v * w * 2 ^ 98 ≤ n * p * (2 ^ 49 + 1) ^ 2 := by
  have hfactors : v * w ≤ (n + n / 2 ^ 49) * (p + p / 2 ^ 49) := mul_le_mul hv hw hpos (by positivity)
  calc v * w * 2 ^ 98 ≤ (n + n / 2 ^ 49) * (p + p / 2 ^ 49) * 2 ^ 98 :=
        mul_le_mul_of_nonneg_right hfactors (by positivity)
    _ = n * p * (2 ^ 49 + 1) ^ 2 := by ring

/-- A product is finite if it is below the largest float even with both factors rounded up. -/
theorem isInf_of_clear {n e : Nat} (hn : n ≤ maxWord) (he : e ≤ 308)
    (hclear : n * 10 ^ e * (2 ^ 49 + 1) ^ 2 < largestWhole * 2 ^ 98) :
    (Float.ofNat n * powerOfTen e).isInf = false := by
  obtain ⟨v, hv, hvle, -⟩ := nearTo_ofNat hn
  obtain ⟨w, hw, hwle, -⟩ := nearTo_powerOfTen he
  have hrounded := mul_le_of_rounded (Nat.cast_nonneg n) hvle hwle (magnitude?_nonneg hw)
  have hcast : (n : ℚ) * 10 ^ e * (2 ^ 49 + 1) ^ 2 < largest * 2 ^ 98 := by
    rw [largest_eq]
    exact_mod_cast hclear
  have hproduct : v * w < largest :=
    lt_of_mul_lt_mul_right (lt_of_le_of_lt hrounded hcast) (by positivity)
  obtain ⟨q, hq, -⟩ := exists_magnitude_mul hv hw hproduct
  exact (isFinite_of_magnitude hq).2

/-- The products that are too close to the largest float. -/
theorem isInf_of_close :
    ∀ e, 292 ≤ e → e < 309 →
      ∀ n, largestWhole * 2 ^ 98 / ((2 ^ 49 + 1) ^ 2 * 10 ^ e) ≤ n →
        n < halfwayWhole / 10 ^ e + 1 → ¬ (n = 17976931348623158 ∧ e = 292) →
          (Float.ofNat n * powerOfTen e).isInf = false := by
  decide +kernel

theorem isInf_product {n e : Nat} (hn : n ≤ 10 ^ 17) (he : e ≤ 308)
    (hle : n * 10 ^ e ≤ halfwayWhole) (hedge : ¬ (n = 17976931348623158 ∧ e = 292)) :
    (Float.ofNat n * powerOfTen e).isInf = false := by
  by_cases hclear : n * 10 ^ e * (2 ^ 49 + 1) ^ 2 < largestWhole * 2 ^ 98
  · exact isInf_of_clear (le_trans hn (by decide)) he hclear
  -- with at most seventeen digits only the largest powers come this close
  have hpos : 0 < 10 ^ e := Nat.pow_pos (by decide)
  refine isInf_of_close e ?_ (Nat.lt_succ_of_le he) n ?_ ?_ hedge
  · by_contra hsmall
    have hle : e ≤ 291 := by omega
    have hbound : 10 ^ 17 * 10 ^ 291 * (2 ^ 49 + 1) ^ 2 < largestWhole * 2 ^ 98 := by
      decide +kernel
    have hpower (k : Nat) (hk : e ≤ k) : 10 ^ e ≤ 10 ^ k := Nat.pow_le_pow_right (by decide) hk
    have hfactors := Nat.mul_le_mul_right ((2 ^ 49 + 1) ^ 2) (Nat.mul_le_mul hn (hpower 291 hle))
    exact hclear (hfactors.trans_lt hbound)
  · apply Nat.div_le_of_le_mul
    calc largestWhole * 2 ^ 98 ≤ n * 10 ^ e * (2 ^ 49 + 1) ^ 2 := Nat.le_of_not_lt hclear
      _ = (2 ^ 49 + 1) ^ 2 * 10 ^ e * n := by ring
  · exact Nat.lt_succ_of_le ((Nat.le_div_iff_mul_le hpos).mpr hle)

/-! ## Values -/

/-- A number is read unless a product is infinite. -/
theorem exists_scale {n : Nat} {e : Int} (hlarge : 308 < e → n = 0)
    (hproduct : ∀ k : Nat, k ≤ 308 → e = k → (Float.ofNat n * powerOfTen k).isInf = false) :
    ∃ y, scale n e = .ok y := by
  unfold scale
  dsimp only
  by_cases hsign : 0 ≤ e
  · rw [if_pos hsign]
    by_cases hsmall : e ≤ 308
    · have hfinite := hproduct e.toNat (by omega) (by omega)
      rw [if_pos hsmall, if_neg (by rw [hfinite]; decide)]
      exact ⟨_, rfl⟩
    · rw [if_neg hsmall, if_pos (hlarge (by omega))]
      exact ⟨_, rfl⟩
  · rw [if_neg hsign]
    split
    · exact ⟨_, rfl⟩
    · split
      · exact ⟨_, rfl⟩
      · exact ⟨_, rfl⟩

theorem exists_scale_of_nonpos {n : Nat} (hn : n ≤ maxWord) {e : Int} (he : e ≤ 0) :
    ∃ y, scale n e = .ok y := by
  apply exists_scale
  · omega
  · intro k hk hek
    obtain rfl : k = 0 := by omega
    have hbound : maxWord * 10 ^ 0 * (2 ^ 49 + 1) ^ 2 < largestWhole * 2 ^ 98 := by decide +kernel
    exact isInf_of_clear hn hk
      (lt_of_le_of_lt (Nat.mul_le_mul_right _ (Nat.mul_le_mul_right _ hn)) hbound)

theorem exists_scale_of_inRange {s : Scientific} (h : s.InRange) :
    ∃ y, scale s.number s.place = .ok y := by
  have hsize {k : Nat} (hk : s.place = k) : s.number * 10 ^ k ≤ halfwayWhole := by
    have hle := h.le_halfway
    rw [hk, zpow_natCast, halfway_eq] at hle
    exact_mod_cast hle
  apply exists_scale
  · -- a higher power is too large by itself
    intro hlarge
    by_contra hne
    have hbound : halfwayWhole < 10 ^ 309 := by decide +kernel
    have hplace : s.place = (s.place.toNat : Int) := by omega
    have hweight : 309 ≤ s.place.toNat := by omega
    have hpower (k : Nat) (hk : k ≤ s.place.toNat) : 10 ^ k ≤ 10 ^ s.place.toNat :=
      Nat.pow_le_pow_right (by decide) hk
    have hmul := Nat.le_mul_of_pos_left (10 ^ s.place.toNat) (Nat.pos_of_ne_zero hne)
    exact absurd (hbound.trans_le ((hpower 309 hweight).trans (hmul.trans (hsize hplace)))) (lt_irrefl _)
  · intro k hk hplace
    refine isInf_product h.number_le hk (hsize hplace) ?_
    rintro ⟨hnumber, rfl⟩
    exact h.not_edge ⟨hnumber, hplace⟩

theorem ofDigitChars_lt {ds : Text} (h : ∀ c ∈ ds, c.isDigit = true) (n : Nat) :
    Nat.ofDigitChars 10 ds n < 10 ^ ds.length * (n + 1) := by
  induction ds generalizing n with
  | nil =>
    rw [Nat.ofDigitChars_nil, List.length_nil, pow_zero, Nat.one_mul]
    exact Nat.lt_succ_self n
  | cons c ds ih =>
    obtain ⟨-, hhigh⟩ := PacketTrace.Numeral.toNat_of_isDigit (h c List.mem_cons_self)
    have hdigit : 10 * n + (c.toNat - '0'.toNat) + 1 ≤ 10 * (n + 1) := by
      show 10 * n + (c.toNat - 48) + 1 ≤ _
      omega
    rw [Nat.ofDigitChars_cons, List.length_cons, pow_succ, Nat.mul_assoc]
    exact lt_of_lt_of_le (ih (fun c hc => h c (List.mem_cons_of_mem _ hc)) _)
      (Nat.mul_le_mul_left _ hdigit)

/-- The exponent of a numeral. -/
def exponentValue : Option (Bool × List UInt8) → Int
  | none => 0
  | some (true, ds) => -(ds.foldl (fun e d => e * 10 + digitValue d) 0 : Nat)
  | some (false, ds) => (ds.foldl (fun e d => e * 10 + digitValue d) 0 : Nat)

theorem exponentValue_decimal (e : Int) :
    exponentValue (some (decide (e < 0), encode (PacketTrace.Numeral.decimal e.natAbs))) = e := by
  have hvalue : (encode (PacketTrace.Numeral.decimal e.natAbs)).foldl
      (fun e d => e * 10 + digitValue d) 0 = e.natAbs :=
    (foldl_encode_digits (digits_decimal _).isDigit 0).trans Nat.ofDigitChars_ten_toDigits
  by_cases he : e < 0
  · rw [decide_eq_true he, exponentValue, hvalue]
    omega
  · rw [decide_eq_false he, exponentValue, hvalue]
    omega

/-- What a numeral is worth that is no plain number, if its whole part is a word. -/
theorem exists_value_of_scale {n : Numeral} {whole : Nat} (hwhole : absorb 0 n.whole = (whole, 0))
    (hreal : (n.fraction.isNone && n.exponent.isNone) = false)
    (hscale : ∃ x, scale (absorb whole (n.fraction.getD [])).1
      (exponentValue n.exponent -
        ((n.fraction.getD []).length - (absorb whole (n.fraction.getD [])).2 : Nat)) = .ok x) :
    ∃ y, n.value = .ok (.real y) := by
  obtain ⟨x, hx⟩ := hscale
  obtain ⟨negative, digits, fraction, exponent⟩ := n
  refine ⟨if negative then -x else x, ?_⟩
  dsimp only at hwhole hreal hx
  unfold Numeral.value
  dsimp only
  rw [hwhole]
  dsimp only
  rw [if_neg (by rw [Bool.and_assoc, hreal, Bool.and_false]; decide)]
  generalize absorb whole (fraction.getD []) = read at hx ⊢
  obtain ⟨significand, dropped⟩ := read
  dsimp only at hx ⊢
  -- the three forms of an exponent differ only in its value
  have hread (e : Int) (he : e = exponentValue exponent) :
      (do
        let x ← scale significand (((0 : Nat) : Int) - ((fraction.getD []).length - dropped : Nat) + e)
        return Number.real (if negative then -x else x)) =
        .ok (Number.real (if negative then -x else x)) := by
    have hsum : ((0 : Nat) : Int) - ((fraction.getD []).length - dropped : Nat) + e =
        exponentValue exponent - ((fraction.getD []).length - dropped : Nat) := by omega
    rw [hsum, hx]
    rfl
  rcases exponent with _ | ⟨_ | _, ds⟩
  · exact hread _ rfl
  · exact hread _ rfl
  · exact hread _ rfl

/-- With few digits in front of its point, a number has no positive exponent. -/
theorem exists_value_point (negative : Bool) {whole fraction : Text} (hwhole : Digits whole)
    (hshort : whole.length ≤ 16) : ∃ y, (pointNumeral negative whole fraction).value = .ok (.real y) := by
  have hword : Nat.ofDigitChars 10 whole 0 ≤ maxWord := by
    have hlt := ofDigitChars_lt hwhole.isDigit 0
    have hpower : 10 ^ whole.length ≤ 10 ^ 16 := Nat.pow_le_pow_right (by decide) hshort
    have hbound : 10 ^ 16 ≤ maxWord := by decide
    omega
  refine exists_value_of_scale (absorb_encode hwhole.isDigit hword) rfl ?_
  refine exists_scale_of_nonpos (absorb_le hword _) ?_
  show 0 - ((encode fraction).length - (absorb _ (encode fraction)).2 : Nat) ≤ (0 : Int)
  omega

/-- One digit in front of the point, and all others behind it. -/
theorem exists_value_exponent (negative : Bool) {s : Scientific} (h : s.Proper) (hrange : s.InRange) :
    ∃ y, (exponentNumeral negative (s.digits.take 1) (s.digits.drop 1) s.exponent).value =
      .ok (.real y) := by
  have htake : ∀ c ∈ s.digits.take 1, c.isDigit = true :=
    fun c hc => h.digits.isDigit c (List.mem_of_mem_take hc)
  have hdrop : ∀ c ∈ s.digits.drop 1, c.isDigit = true :=
    fun c hc => h.digits.isDigit c (List.mem_of_mem_drop hc)
  have hnumber : Nat.ofDigitChars 10 (s.digits.drop 1) (Nat.ofDigitChars 10 (s.digits.take 1) 0) =
      s.number := by
    rw [← Nat.ofDigitChars_append, List.take_append_drop]
    rfl
  have hword : s.number ≤ maxWord := le_trans hrange.number_le (by decide)
  rw [← hnumber] at hword
  have hfraction : (if (s.digits.drop 1).isEmpty then none else some (encode (s.digits.drop 1))).getD [] =
      encode (s.digits.drop 1) := by
    cases s.digits.drop 1 with
    | nil => rfl
    | cons c ds => rfl
  refine exists_value_of_scale (absorb_encode htake (le_trans (le_ofDigitChars _ _) hword)) ?_ ?_
  · exact Bool.and_false _
  · unfold exponentNumeral
    dsimp only
    rw [hfraction, absorb_encode hdrop hword, exponentValue_decimal, hnumber]
    have hplace : s.exponent - ((encode (s.digits.drop 1)).length - 0 : Nat) = s.place := by
      have hpos : 0 < s.digits.length := List.length_pos_iff.mpr h.digits.ne_nil
      rw [length_encode_digits hdrop, List.length_drop]
      unfold Scientific.place
      omega
    rw [hplace]
    exact exists_scale_of_inRange hrange

/-! ## Floats -/

/-- The decimal that is written for a finite float is in range. -/
theorem inRange_shortest {x : Float} {negative : Bool} {m : Nat} {q : Int}
    (hx : Binary.ofFloat x = .finite negative m q) : (shortest m q).InRange := by
  obtain ⟨hm, hq⟩ := Binary.finite_bounds hx
  unfold shortest
  split
  · exact Shortest.inRange_zero
  · rename_i hpos
    exact Shortest.inRange_ofValue (Nat.pos_of_ne_zero hpos) hm hq

/-- **A finite float that was written can be read.** It need not be the same float that is read. -/
theorem exists_reread {x : Float} (h : x.isFinite = true) : ∃ y, reread x = .ok y := by
  obtain ⟨negative, m, q, hx⟩ := (isFinite_iff x).mp h
  obtain ⟨n, hformed, hform, hbytes⟩ := exists_numeral_floatText hx
  have hvalue : ∃ y, n.value = .ok (.real y) := by
    cases hform with
    | point hwhole hshort => exact exists_value_point _ hwhole hshort
    | exponent negative => exact exists_value_exponent negative (proper_shortest m q) (inRange_shortest hx)
  obtain ⟨y, hy⟩ := hvalue
  have hyields := yields_float hformed.writtenAs
  rw [hbytes, hy] at hyields
  exact ⟨y, reread_of_yields hyields⟩

end PacketTrace.Json.Reader

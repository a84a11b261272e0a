import Mathlib
import PacketTrace.Proofs.Decimal.Binary
import PacketTrace.Proofs.Decimal.Shortest

/-!
# `Proofs.Decimal.Size` — how large a shortest form is

A shortest form has at most seventeen digits, or it is a one with zeros, and it is not above the number
halfway between the largest float and the next power of two, since it rounds to a float. The comparisons
behind this are made between scaled whole numbers; here they are taken back to the numbers themselves.

## Contents
- **Comparison.** `scaledDecimal` and `scaledBinary` as multiples of one factor.
- **Digits.** `lt_leadingExponent`, and the two bounds for what is found on a grid.
- **Shortest forms.** `Scientific.InRange` and `inRange_ofValue`.
-/

namespace PacketTrace
namespace Shortest

open Numeral

/-! ## Comparison -/

/-- The factor by which both sides of a comparison are scaled. -/
def commonFactor (k p : Int) : ℚ := 10 ^ (-k).toNat * 2 ^ (-p).toNat

theorem commonFactor_pos (k p : Int) : 0 < commonFactor k p := by
  unfold commonFactor
  positivity

theorem pow_toNat {b : ℚ} (hb : b ≠ 0) (k : Int) : b ^ k.toNat = b ^ k * b ^ (-k).toNat := by
  rw [← zpow_natCast, ← zpow_natCast, ← zpow_add₀ hb]
  congr 1
  omega

theorem scaledDecimal_eq (d : Nat) (k p : Int) :
    (scaledDecimal d k p : ℚ) = d * 10 ^ k * commonFactor k p := by
  unfold scaledDecimal commonFactor
  simp only [Nat.pow_eq]
  push_cast
  rw [pow_toNat (by norm_num) k]
  ring

theorem scaledBinary_eq (x : Nat) (k p : Int) :
    (scaledBinary x k p : ℚ) = x * 2 ^ p * commonFactor k p := by
  unfold scaledBinary commonFactor
  simp only [Nat.pow_eq]
  push_cast
  rw [pow_toNat (by norm_num) p]
  ring

/-- A comparison of scaled numbers is a comparison of the numbers. -/
theorem scaledDecimal_le_scaledBinary {d x : Nat} {k p : Int} :
    scaledDecimal d k p ≤ scaledBinary x k p ↔ (d : ℚ) * 10 ^ k ≤ x * 2 ^ p := by
  rw [← Nat.cast_le (α := ℚ), scaledDecimal_eq, scaledBinary_eq,
    mul_le_mul_iff_of_pos_right (commonFactor_pos k p)]

/-! ## Digits -/

theorem lt_ten_pow_length (n : Nat) : n < 10 ^ (decimal n).length :=
  (Nat.length_toDigits_le_iff (by decide) Nat.length_toDigits_pos).mp (le_refl _)

theorem ten_pow_length_le {n : Nat} (hn : 0 < n) : 10 ^ ((decimal n).length - 1) ≤ n := by
  by_contra hlt
  rcases Nat.eq_zero_or_pos ((decimal n).length - 1) with hone | hmore
  · rw [hone] at hlt
    omega
  · have hlength := (Nat.length_toDigits_le_iff (by decide) hmore).mpr (Nat.lt_of_not_le hlt)
    change (decimal n).length ≤ (decimal n).length - 1 at hlength
    omega

theorem lt_zpow_mul {a b : ℚ} {e : Int} (h : a * 10 ^ (-e) < b) : a < 10 ^ e * b := by
  rw [zpow_neg, ← div_eq_mul_inv, div_lt_iff₀ (by positivity), mul_comm] at h
  exact h

/-- A quotient from one on has as many digits in front of the point as its whole part. -/
theorem lt_of_whole {num den : Nat} (hden : 0 < den) :
    (num : ℚ) < 10 ^ (Int.ofNat ((decimal (num / den)).length - 1) + 1) * den := by
  have hlength : 0 < (decimal (num / den)).length := Nat.length_toDigits_pos
  have hlt := (Nat.div_lt_iff_lt_mul hden).mp (lt_ten_pow_length (num / den))
  have hexponent : Int.ofNat ((decimal (num / den)).length - 1) + 1 = ((decimal (num / den)).length : Int) := by
    show (((decimal (num / den)).length - 1 : Nat) : Int) + 1 = _
    omega
  rw [hexponent, zpow_natCast]
  exact_mod_cast hlt

/-- A quotient below one is the inverse of one that is above one, and only the inverse of a power of ten has
as few zeros behind the point as that power has. -/
theorem lt_of_inverse {num den : Nat} (hnum : 0 < num) (h : num ≤ den) :
    let places := (decimal (den / num)).length
    (num : ℚ) < 10 ^ ((if den ≤ num * Nat.pow 10 (places - 1) then -Int.ofNat (places - 1)
      else -Int.ofNat places) + 1) * den := by
  intro places
  have hpos : 0 < places := Nat.length_toDigits_pos
  have hnum' : (0 : ℚ) < num := by exact_mod_cast hnum
  have hplaces : 10 ^ (places - 1) * num ≤ den :=
    (Nat.le_div_iff_mul_le hnum).mp (ten_pow_length_le (Nat.div_pos h hnum))
  split
  · have hexponent : -(-Int.ofNat (places - 1) + 1) = ((places - 1 : Nat) : Int) - 1 := by
      show -(-((places - 1 : Nat) : Int) + 1) = _
      omega
    apply lt_zpow_mul
    rw [hexponent, zpow_sub_one₀ (by norm_num), zpow_natCast]
    have hcast : (10 : ℚ) ^ (places - 1) * num ≤ den := by exact_mod_cast hplaces
    have hten : (0 : ℚ) < 10 ^ (places - 1) * num := by positivity
    calc (num : ℚ) * (10 ^ (places - 1) * 10⁻¹) = 10 ^ (places - 1) * num * 10⁻¹ := by ring
      _ < 10 ^ (places - 1) * num := by linarith
      _ ≤ den := hcast
  · rename_i hlarge
    have hexponent : -(-Int.ofNat places + 1) = ((places - 1 : Nat) : Int) := by
      show -(-(places : Int) + 1) = _
      omega
    apply lt_zpow_mul
    rw [hexponent, zpow_natCast]
    exact_mod_cast Nat.lt_of_not_le hlarge

/-- **The first digit of a value** has the greatest weight. -/
theorem lt_leadingExponent {m : Nat} (hm : 0 < m) (q : Int) :
    (m : ℚ) * 2 ^ q < 10 ^ (leadingExponent m q + 1) := by
  have hnum : 0 < m * Nat.pow 2 q.toNat := Nat.mul_pos hm (Nat.pow_pos (by decide))
  have hden : 0 < Nat.pow 2 (-q).toNat := Nat.pow_pos (by decide)
  have hvalue : (m : ℚ) * 2 ^ q = ((m * Nat.pow 2 q.toNat : Nat) : ℚ) / (Nat.pow 2 (-q).toNat : Nat) := by
    simp only [Nat.pow_eq]
    push_cast
    rw [pow_toNat (by norm_num) q, ← mul_assoc]
    exact (mul_div_cancel_right₀ _ (by positivity)).symm
  rw [hvalue, div_lt_iff₀ (by exact_mod_cast hden)]
  unfold leadingExponent
  dsimp only
  by_cases hwhole : Nat.pow 2 (-q).toNat ≤ m * Nat.pow 2 q.toNat
  · rw [if_pos hwhole]
    exact lt_of_whole hden
  · rw [if_neg hwhole]
    exact lt_of_inverse hnum (Nat.le_of_not_le hwhole)

/-- What rounds to a float is at most half the distance to the next float above it. -/
theorem le_of_readsBack {m d : Nat} {q k : Int} (h : readsBack m q d k = true) :
    (d : ℚ) * 10 ^ k ≤ (4 * m + 2) * 2 ^ (q - 2) := by
  have hhigh : scaledDecimal d k (q - 2) ≤ scaledBinary (4 * m + 2) k (q - 2) := by
    unfold readsBack at h
    dsimp only at h
    split at h
    · exact of_decide_eq_true (Bool.and_eq_true_iff.mp h).2
    · exact Nat.le_of_lt (of_decide_eq_true (Bool.and_eq_true_iff.mp h).2)
  have hle := scaledDecimal_le_scaledBinary.mp hhigh
  push_cast at hle
  exact hle

/-- What is found on a grid is at most one step above the value. -/
theorem sub_one_mul_le {m d : Nat} {q k : Int} (h : nearestOnGrid? m q k = some d) :
    ((d : ℚ) - 1) * 10 ^ k ≤ m * 2 ^ q := by
  have hstep := (nearestOnGrid?_eq_some h).2
  generalize hbelow : scaledBinary (4 * m) k (q - 2) / scaledDecimal 1 k (q - 2) = below at hstep
  have hfloor : scaledDecimal below k (q - 2) ≤ scaledBinary (4 * m) k (q - 2) := by
    have hle := Nat.div_mul_le_self (scaledBinary (4 * m) k (q - 2)) (scaledDecimal 1 k (q - 2))
    rw [hbelow] at hle
    calc scaledDecimal below k (q - 2) = below * scaledDecimal 1 k (q - 2) := by
          unfold scaledDecimal
          ring
      _ ≤ _ := hle
  have hvalue : ((4 * m : Nat) : ℚ) * 2 ^ (q - 2) = m * 2 ^ q := by
    rw [zpow_sub₀ (by norm_num)]
    push_cast
    ring
  have hle := scaledDecimal_le_scaledBinary.mp hfloor
  rw [hvalue] at hle
  have hstep' : (d : ℚ) - 1 ≤ below := by
    rw [sub_le_iff_le_add]
    exact_mod_cast hstep
  exact le_trans (mul_le_mul_of_nonneg_right hstep' (by positivity)) hle

end Shortest

/-! ## Shortest forms -/

namespace Scientific

/-- The number that the digits make up. -/
def number (s : Scientific) : Nat := Numeral.value s.digits

/-- The exponent of the last digit. -/
def place (s : Scientific) : Int := s.exponent + 1 - s.digits.length

/-- What is above this number is not rounded to a float any more: it is halfway between the largest float and
the next power of two. -/
def halfway : ℚ := (2 ^ 54 - 1) * 2 ^ (970 : ℤ)

/-- The size that the shortest form of a float can have. One decimal below `halfway` is left out, though it
rounds to the largest float: that float has another form with as many digits, which is nearer to it. -/
structure InRange (s : Scientific) : Prop where
  number_le : s.number ≤ 10 ^ 17
  le_halfway : (s.number : ℚ) * 10 ^ s.place ≤ halfway
  not_edge : ¬ (s.number = 17976931348623158 ∧ s.place = 292)

end Scientific

namespace Shortest

open Numeral

/-- The digits and their place make up the number of multiples. -/
theorem number_normalise {d : Nat} (hd : 0 < d) (k : Int) :
    ∃ zeros : Nat, d = (normalise d k).number * 10 ^ zeros ∧ (normalise d k).place = k + zeros := by
  obtain ⟨zeros, hsplit, -⟩ := normalise_digits hd k
  refine ⟨zeros, ?_, ?_⟩
  · calc d = Nat.ofDigitChars 10 (decimal d) 0 := Nat.ofDigitChars_ten_toDigits.symm
      _ = _ := by
        rw [hsplit, Nat.ofDigitChars_append, Nat.ofDigitChars_replicate_zero, Nat.mul_comm]
        rfl
  · have hlength := congrArg List.length hsplit
    rw [List.length_append, List.length_replicate] at hlength
    show k + ((decimal d).length : Int) - 1 + 1 - ((normalise d k).digits.length : Int) = _
    omega

/-- The largest float has a shortest form below the one decimal that is none. -/
theorem ne_edge_of_nearestOnGrid? {m : Nat} {q : Int} (hsize : m < 2 ^ 53) (hq : q ≤ 971) :
    nearestOnGrid? m q 292 ≠ some 17976931348623158 := by
  intro hgrid
  have hle := sub_one_mul_le hgrid
  have hgap : 2 ^ 53 * 2 ^ 970 < 17976931348623157 * 10 ^ 292 ∧
      (2 ^ 53 - 2) * 2 ^ 971 < 17976931348623157 * 10 ^ 292 := by decide +kernel
  have hbelow : ((17976931348623157 * 10 ^ 292 : Nat) : ℚ) ≤ m * 2 ^ q := by
    refine le_trans (le_of_eq ?_) hle
    simp only [zpow_ofNat, Nat.cast_mul, Nat.cast_pow, Nat.cast_ofNat]
    congr 1
    norm_num
  -- so it can only be the largest float
  have hlargest : q = 971 := by
    by_contra hne
    have hweight : (2 : ℚ) ^ q ≤ 2 ^ 970 := by
      rw [← zpow_natCast]
      exact zpow_le_zpow_right₀ (by norm_num) (by omega)
    have hmul : (m : ℚ) * 2 ^ q ≤ ((2 ^ 53 * 2 ^ 970 : Nat) : ℚ) := by
      rw [Nat.cast_mul, Nat.cast_pow 2 970]
      exact mul_le_mul (by exact_mod_cast hsize.le) hweight (by positivity) (by positivity)
    exact absurd hgap.1 (Nat.not_lt.mpr (by exact_mod_cast le_trans hbelow hmul))
  rw [hlargest, zpow_ofNat] at hbelow
  have hmantissa : 17976931348623157 * 10 ^ 292 ≤ m * 2 ^ 971 := by exact_mod_cast hbelow
  obtain rfl : m = 2 ^ 53 - 1 := by
    have hlt := lt_of_mul_lt_mul_right (lt_of_lt_of_le hgap.2 hmantissa) (Nat.zero_le _)
    omega
  rw [hlargest] at hgrid
  have hnearest : nearestOnGrid? (2 ^ 53 - 1) 971 292 = some 17976931348623157 := by decide +kernel
  rw [hnearest] at hgrid
  cases hgrid

/-- A number found on the grid that has `more` places behind the first digit has that many digits, or is the next
power of ten. -/
theorem le_of_nearestOnGrid? {m d more : Nat} {q : Int} (hm : 0 < m)
    (h : nearestOnGrid? m q (leadingExponent m q - Int.ofNat more) = some d) : d ≤ 10 ^ (more + 1) := by
  generalize hk : leadingExponent m q - Int.ofNat more = k at h
  have hexponent : leadingExponent m q + 1 = ((more + 1 : Nat) : Int) + k := by
    rw [← hk]
    show _ = _ + (_ - (more : Int))
    push_cast
    ring
  have hlt := lt_of_le_of_lt (sub_one_mul_le h) (lt_leadingExponent hm q)
  rw [hexponent, zpow_add₀ (by norm_num), zpow_natCast] at hlt
  have hsteps := sub_lt_iff_lt_add.mp (lt_of_mul_lt_mul_right hlt (by positivity))
  exact Nat.le_of_lt_succ (by exact_mod_cast hsteps)

theorem le_halfway_of_readsBack {m d : Nat} {q k : Int} (hsize : m < 2 ^ 53) (hq : q ≤ 971)
    (h : readsBack m q d k = true) : (d : ℚ) * 10 ^ k ≤ Scientific.halfway := by
  have hmantissa : (4 * m + 2 : ℚ) ≤ 4 * (2 ^ 53 - 1) + 2 := by
    have hle : m + 1 ≤ 2 ^ 53 := hsize
    have hcast : (m : ℚ) + 1 ≤ 2 ^ 53 := by exact_mod_cast hle
    linarith
  have hweight : (2 : ℚ) ^ (q - 2) ≤ 2 ^ (969 : ℤ) := zpow_le_zpow_right₀ (by norm_num) (by omega)
  calc (d : ℚ) * 10 ^ k ≤ (4 * m + 2) * 2 ^ (q - 2) := le_of_readsBack h
    _ ≤ (4 * (2 ^ 53 - 1) + 2) * 2 ^ (969 : ℤ) :=
      mul_le_mul hmantissa hweight (by positivity) (by norm_num)
    _ = Scientific.halfway := by
      have hscale : (2 : ℚ) ^ (970 : ℤ) = 2 ^ (969 : ℤ) * 2 := zpow_add_one₀ (by norm_num) 969
      unfold Scientific.halfway
      rw [hscale]
      ring

theorem inRange_zero : (Scientific.mk ['0'] 0).InRange where
  number_le := by decide
  le_halfway := by
    have hzero : (Scientific.mk ['0'] 0).number = 0 := rfl
    rw [hzero, Nat.cast_zero, zero_mul]
    unfold Scientific.halfway
    norm_num
  not_edge := by decide

/-- The zeros at the end of a number do not matter for its range. -/
theorem inRange_normalise {d : Nat} (hd : 0 < d) {k : Int} (hsmall : d ≤ 10 ^ 17)
    (hle : (d : ℚ) * 10 ^ k ≤ Scientific.halfway) (hedge : ¬ (d = 17976931348623158 ∧ k = 292)) :
    (normalise d k).InRange := by
  obtain ⟨zeros, hnumber, hplace⟩ := number_normalise hd k
  constructor
  · calc (normalise d k).number ≤ (normalise d k).number * 10 ^ zeros :=
          Nat.le_mul_of_pos_right _ (Nat.pow_pos (by decide))
      _ = d := hnumber.symm
      _ ≤ 10 ^ 17 := hsmall
  · have hcast : (d : ℚ) = (normalise d k).number * 10 ^ zeros := by exact_mod_cast hnumber
    calc ((normalise d k).number : ℚ) * 10 ^ (normalise d k).place = d * 10 ^ k := by
          rw [hplace, zpow_add₀ (by norm_num), zpow_natCast, hcast]
          ring
      _ ≤ Scientific.halfway := hle
  · rintro ⟨hlast, hlast'⟩
    rw [hlast] at hnumber
    rw [hplace] at hlast'
    -- with a zero behind them these digits would be too many
    have hnone : zeros = 0 := by
      by_contra hsome
      have hten : 10 ^ 1 ≤ 10 ^ zeros := Nat.pow_le_pow_right (by decide) (by omega)
      omega
    rw [hnone, pow_zero, mul_one] at hnumber
    exact hedge ⟨hnumber, by omega⟩

/-- **The shortest form of a float is in range.** -/
theorem inRange_ofValue {m : Nat} (hm : 0 < m) (hsize : m < 2 ^ 53) {q : Int} (hq : q ≤ 971) :
    (ofValue m q).InRange := by
  obtain hnone | ⟨more, hmore, d, hgrid, hfound⟩ := found_ofValue m q
  · rw [hnone]
    exact inRange_zero
  · have hreads := (nearestOnGrid?_eq_some hgrid).1
    rw [hfound]
    refine inRange_normalise (pos_of_readsBack hm hreads) ?_ (le_halfway_of_readsBack hsize hq hreads) ?_
    · exact le_trans (le_of_nearestOnGrid? hm hgrid) (Nat.pow_le_pow_right (by decide) (by omega))
    · rintro ⟨rfl, hk⟩
      rw [hk] at hgrid
      exact ne_edge_of_nearestOnGrid? hsize hq hgrid

end Shortest

end PacketTrace

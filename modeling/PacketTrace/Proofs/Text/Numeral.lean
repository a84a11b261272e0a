import PacketTrace.Text.Numeral

/-!
# `Proofs.Text.Numeral` — the digits of a number

## Contents
- **Digits.** `Digits` says that a text is a run of digits.
- **Numbers.** The digits of a number are such a run, and only zero begins with a zero.
-/

namespace PacketTrace
namespace Numeral

/-! ## Digits -/

/-- One digit or more, as text. -/
structure Digits (ds : Text) : Prop where
  ne_nil : ds ≠ []
  isDigit : ∀ c ∈ ds, c.isDigit = true

theorem Digits.append {s t : Text} (hs : Digits s) (ht : ∀ c ∈ t, c.isDigit = true) :
    Digits (s ++ t) where
  ne_nil := List.append_ne_nil_of_left_ne_nil hs.ne_nil t
  isDigit c hc := (List.mem_append.mp hc).elim (hs.isDigit c) (ht c)

theorem Digits.behind {s t : Text} (ht : Digits t) (hs : ∀ c ∈ s, c.isDigit = true) :
    Digits (s ++ t) where
  ne_nil := List.append_ne_nil_of_right_ne_nil s ht.ne_nil
  isDigit c hc := (List.mem_append.mp hc).elim (hs c) (ht.isDigit c)

/-- The beginning of a run of digits is one as well, if there is any. -/
theorem Digits.take {s : Text} (hs : Digits s) {n : Nat} (hn : 0 < n) : Digits (s.take n) where
  ne_nil := by
    rw [Ne, List.take_eq_nil_iff]
    rintro (hnone | hnil)
    · omega
    · exact hs.ne_nil hnil
  isDigit c hc := hs.isDigit c (List.mem_of_mem_take hc)

/-- So is the end. -/
theorem Digits.drop {s : Text} (hs : Digits s) {n : Nat} (hn : n < s.length) : Digits (s.drop n) where
  ne_nil := by
    rw [Ne, List.drop_eq_nil_iff]
    omega
  isDigit c hc := hs.isDigit c (List.mem_of_mem_drop hc)

theorem digits_zero : Digits ['0'] where
  ne_nil := List.cons_ne_nil _ _
  isDigit c hc := by
    rw [List.mem_singleton.mp hc]
    rfl

theorem toNat_of_isDigit {c : Char} (h : c.isDigit = true) : 48 ≤ c.toNat ∧ c.toNat ≤ 57 := by
  simpa [Char.isDigit, UInt32.le_iff_toNat_le] using h

/-- Digits make a number larger. -/
theorem le_ofDigitChars (n : Nat) (ds : Text) : n ≤ Nat.ofDigitChars 10 ds n := by
  rw [Nat.ofDigitChars_eq_ofDigitChars_zero]
  have hpow : 0 < 10 ^ ds.length := Nat.pow_pos (by decide)
  have hmul : 1 * n ≤ 10 ^ ds.length * n := Nat.mul_le_mul_right n hpow
  omega

/-! ## Numbers -/

theorem digits_decimal (n : Nat) : Digits (decimal n) where
  ne_nil := Nat.toDigits_ne_nil
  isDigit _ hc := Nat.isDigit_of_mem_toDigits (by decide) (by decide) hc

theorem decimal_inj {m n : Nat} : decimal m = decimal n ↔ m = n := by
  constructor
  · intro h
    have hvalue := congrArg value h
    unfold value decimal at hvalue
    rw [Nat.ofDigitChars_ten_toDigits, Nat.ofDigitChars_ten_toDigits] at hvalue
    exact hvalue
  · exact congrArg decimal

/-- Only zero begins with a zero. -/
theorem head?_decimal {n : Nat} (h : 0 < n) : (decimal n).head? ≠ some '0' := by
  unfold decimal
  induction n using Nat.strongRecOn with
  | ind n ih =>
    rw [Nat.toDigits_eq_if (by decide)]
    split
    · simp
      omega
    · have hfirst := ih (n / 10) (by omega) (by omega)
      cases hds : Nat.toDigits 10 (n / 10) with
      | nil => exact absurd hds Nat.toDigits_ne_nil
      | cons c ds =>
        rw [hds] at hfirst
        exact hfirst

theorem lead_decimal (n : Nat) :
    (decimal n).head? = some '0' → (decimal n).length = 1 := by
  intro hhead
  obtain rfl | hpos := Nat.eq_zero_or_pos n
  · rfl
  · exact absurd hhead (head?_decimal hpos)

end Numeral
end PacketTrace

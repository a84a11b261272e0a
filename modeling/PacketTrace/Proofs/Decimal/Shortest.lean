import PacketTrace.Decimal.Shortest
import PacketTrace.Proofs.Text.Numeral

/-!
# `Proofs.Decimal.Shortest` — what a shortest form looks like

The shortest form of a float above zero is a number of multiples of a power of ten, without the zeros at
its end. That number is not zero, since zero does not round to the float; so the first digit is none.

## Contents
- **Selection.** What a grid gives (`nearestOnGrid?_eq_some`), and what `ofValue` finds, if it finds something
  (`found_ofValue`).
- **Digits.** `Scientific.Proper`, and `proper_ofValue`.
-/

namespace PacketTrace
namespace Shortest

open Numeral

/-! ## Selection -/

/-- Zero does not round to a float above zero. -/
theorem pos_of_readsBack {m : Nat} {q : Int} {d : Nat} {k : Int} (hm : 0 < m)
    (h : readsBack m q d k = true) : 0 < d := by
  rcases Nat.eq_zero_or_pos d with rfl | hd
  · have hscaled (x : Nat) (hx : 0 < x) : 0 < scaledBinary x k (q - 2) :=
      Nat.mul_pos (Nat.mul_pos hx (Nat.pow_pos (by decide))) (Nat.pow_pos (by decide))
    have hzero : scaledDecimal 0 k (q - 2) = 0 := by simp [scaledDecimal]
    have hlow : 0 < if m = Binary.leastNormal && -1074 < q then 4 * m - 1 else 4 * m - 2 := by
      split <;> omega
    have hpos := hscaled _ hlow
    unfold readsBack at h
    dsimp only at h
    rw [hzero] at h
    split at h
    · exact absurd hpos (Nat.not_lt.mpr (of_decide_eq_true (Bool.and_eq_true_iff.mp h).1))
    · exact absurd (of_decide_eq_true (Bool.and_eq_true_iff.mp h).1) (Nat.not_lt_zero _)
  · exact hd

/-- **What is found on a grid** rounds to the value, and is one of the two neighbours of the value. -/
theorem nearestOnGrid?_eq_some {m : Nat} {q k : Int} {d : Nat} (h : nearestOnGrid? m q k = some d) :
    readsBack m q d k = true ∧
      d ≤ scaledBinary (4 * m) k (q - 2) / scaledDecimal 1 k (q - 2) + 1 := by
  unfold nearestOnGrid? at h
  dsimp only at h
  split at h
  case h_1 hbelow _ =>
    cases h
    exact ⟨hbelow, Nat.le_succ _⟩
  case h_2 _ habove =>
    cases h
    exact ⟨habove, Nat.le_refl _⟩
  case h_3 => cases h
  case h_4 hbelow habove =>
    split at h
    · cases h
      exact ⟨hbelow, Nat.le_succ _⟩
    · cases h
      exact ⟨habove, Nat.le_refl _⟩
    · split at h
      · cases h
        exact ⟨hbelow, Nat.le_succ _⟩
      · cases h
        exact ⟨habove, Nat.le_refl _⟩

/-- The shortest form comes from a grid, unless there is none. -/
theorem found_ofValue (m : Nat) (q : Int) :
    ofValue m q = ⟨['0'], 0⟩ ∨
      ∃ more < 17, ∃ d, nearestOnGrid? m q (leadingExponent m q - Int.ofNat more) = some d ∧
        ofValue m q = normalise d (leadingExponent m q - Int.ofNat more) := by
  unfold ofValue
  dsimp only
  generalize hfound : (List.range 17).findSome? _ = found
  cases found with
  | none => exact .inl rfl
  | some s =>
    obtain ⟨more, hmore, hs⟩ := List.exists_of_findSome?_eq_some hfound
    obtain ⟨d, hd, rfl⟩ := Option.map_eq_some_iff.mp hs
    exact .inr ⟨more, List.mem_range.mp hmore, d, hd, rfl⟩

end Shortest

/-! ## Digits -/

/-- Digits, of which the first is no zero; zero itself is the digit that stands before the point. -/
structure Scientific.Proper (s : Scientific) : Prop where
  digits : Numeral.Digits s.digits
  lead : s.digits.head? = some '0' → s.digits.length = 1 ∧ s.exponent = 0

namespace Shortest

open Numeral

/-- The zeros at the end of the digits of a number can be split off. -/
theorem normalise_digits {d : Nat} (hd : 0 < d) (k : Int) :
    ∃ zeros, decimal d = (normalise d k).digits ++ List.replicate zeros '0' ∧
      (normalise d k).digits ≠ [] := by
  have hall : (decimal d).reverse = (decimal d).reverse.takeWhile (· == '0') ++
      (decimal d).reverse.dropWhile (· == '0') := List.takeWhile_append_dropWhile.symm
  have hzeros : (decimal d).reverse.takeWhile (· == '0') =
      List.replicate ((decimal d).reverse.takeWhile (· == '0')).length '0' := by
    rw [List.eq_replicate_iff]
    exact ⟨rfl, fun c hc => by simpa using List.all_eq_true.mp List.all_takeWhile c hc⟩
  have hsplit : decimal d = (normalise d k).digits ++
      List.replicate ((decimal d).reverse.takeWhile (· == '0')).length '0' := by
    have hreverse := congrArg List.reverse hall
    rw [List.reverse_reverse, List.reverse_append,
      (congrArg List.reverse hzeros).trans List.reverse_replicate] at hreverse
    exact hreverse
  refine ⟨_, hsplit, fun hnil => ?_⟩
  -- else the first digit would be a zero
  rw [hnil, List.nil_append] at hsplit
  have hfirst := head?_decimal hd
  have hne : decimal d ≠ [] := (digits_decimal d).ne_nil
  rw [hsplit] at hfirst hne
  rw [List.head?_replicate] at hfirst
  split at hfirst
  · rename_i hlength
    rw [hlength] at hne
    exact hne rfl
  · exact hfirst rfl

theorem proper_normalise {d : Nat} (hd : 0 < d) (k : Int) : (normalise d k).Proper := by
  obtain ⟨zeros, hsplit, hne⟩ := normalise_digits hd k
  have hdigits := digits_decimal d
  have hfirst := head?_decimal hd
  rw [hsplit] at hdigits hfirst
  constructor
  · exact ⟨hne, fun c hc => hdigits.isDigit c (List.mem_append_left _ hc)⟩
  · intro hhead
    rw [List.head?_append, hhead] at hfirst
    exact absurd rfl hfirst

/-- **The shortest form of a float has a first digit that is no zero.** -/
theorem proper_ofValue {m : Nat} (hm : 0 < m) (q : Int) : (ofValue m q).Proper := by
  obtain hnone | ⟨more, -, d, hgrid, hfound⟩ := found_ofValue m q
  · rw [hnone]
    exact ⟨digits_zero, fun _ => ⟨rfl, rfl⟩⟩
  · rw [hfound]
    exact proper_normalise (pos_of_readsBack hm (nearestOnGrid?_eq_some hgrid).1) _

end Shortest
end PacketTrace

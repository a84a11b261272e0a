import Mathlib
import PacketTrace.Decimal.Binary

/-!
# `Proofs.Decimal.Binary` — the value of a float and its bits

Arithmetic works on floats that are unpacked into sign, mantissa and exponent, while the decimal forms of a
float are computed from its bits. Both are about the same value.

## Contents
- **Fields.** The three fields of the bits.
- **Values.** `Binary.ofUnpacked` and `ofFloat_eq`; what is finite is the same in both
  (`isFinite_iff`), and a number is given by its value (`eq_of_ofFloat_eq`).
-/

namespace PacketTrace

open Float.Model

namespace Binary

/-! ## Fields -/

section

variable (b : BitVec Format.binary64.numBits)

theorem toNat_unpackMantissa : (UnpackedFloat.unpackMantissa b).toNat = b.toNat % leastNormal := by
  simp [UnpackedFloat.unpackMantissa, leastNormal]

theorem toNat_unpackExponent :
    (UnpackedFloat.unpackExponent b).toNat = b.toNat / leastNormal % Nat.pow 2 11 := by
  simp [UnpackedFloat.unpackExponent, leastNormal, Nat.shiftRight_eq_div_pow]

theorem toNat_unpackSign : (UnpackedFloat.unpackSign b).toNat = b.toNat / Nat.pow 2 63 := by
  have hsize : b.toNat < 2 ^ 64 := b.isLt
  simp [UnpackedFloat.unpackSign, Nat.shiftRight_eq_div_pow]
  omega

end

/-! ## Values -/

/-- Whether a sign is a minus sign. -/
def isMinus : UnpackedFloat.Sign → Bool
  | .positive => false
  | .negative => true

theorem isMinus_ofBitVec (b : BitVec 1) :
    isMinus (UnpackedFloat.Sign.ofBitVec b) = (b.toNat == 1) := by
  obtain rfl | rfl := BitVec.eq_zero_or_eq_one b
  · rfl
  · rfl

/-- The value of an unpacked float. -/
def ofUnpacked : UnpackedFloat → Binary
  | .notANumber => .notANumber
  | .infinity sign => .infinite (isMinus sign)
  | .zero sign => .finite (isMinus sign) 0 (-1074)
  | .finite sign m e _ => .finite (isMinus sign) m e

/-- What a float stands for, by its three fields. -/
def ofFields (sign exponent fraction : Nat) : Binary :=
  if exponent = 2047 then
    if fraction = 0 then .infinite (sign == 1) else .notANumber
  else if exponent = 0 then .finite (sign == 1) fraction (-1074)
  else .finite (sign == 1) (leastNormal + fraction) (Int.ofNat exponent - 1075)

theorem ofUnpacked_unpack (b : BitVec Format.binary64.numBits) :
    ofUnpacked (UnpackedFloat.unpack Format.binary64 b) =
      ofFields (UnpackedFloat.unpackSign b).toNat (UnpackedFloat.unpackExponent b).toNat
        (UnpackedFloat.unpackMantissa b).toNat := by
  unfold ofFields
  rw [← isMinus_ofBitVec]
  have hinfinite : (UnpackedFloat.unpackExponent b).toNat = 2047 ↔
      UnpackedFloat.unpackExponent b = -1#_ := @BitVec.toNat_inj 11 _ (-1#11)
  have hsmall : (UnpackedFloat.unpackExponent b).toNat = 0 ↔
      UnpackedFloat.unpackExponent b = 0#_ := @BitVec.toNat_inj 11 _ 0#11
  have hzero : (UnpackedFloat.unpackMantissa b).toNat = 0 ↔
      UnpackedFloat.unpackMantissa b = 0#_ := @BitVec.toNat_inj 52 _ 0#52
  unfold UnpackedFloat.unpack
  dsimp only
  by_cases he : UnpackedFloat.unpackExponent b = -1#_
  · rw [if_pos (hinfinite.mpr he), if_pos he]
    by_cases hm : UnpackedFloat.unpackMantissa b = 0#_
    · rw [if_pos (hzero.mpr hm), if_pos hm]
      rfl
    · rw [if_neg (mt hzero.mp hm), if_neg hm]
      rfl
  rw [if_neg (mt hinfinite.mp he), if_neg he]
  by_cases he' : UnpackedFloat.unpackExponent b = 0#_
  · rw [if_pos (hsmall.mpr he'), if_pos he']
    by_cases hm : UnpackedFloat.unpackMantissa b = 0#_
    · rw [dif_pos hm, hzero.mpr hm]
      rfl
    · rw [dif_neg hm, he']
      rfl
  · rw [if_neg (mt hsmall.mp he'), if_neg he']
    -- the bit in front of a full mantissa is not stored
    have hnormal : (1#1 ++ UnpackedFloat.unpackMantissa b).toNat =
        leastNormal + (UnpackedFloat.unpackMantissa b).toNat := by
      have hsize : (UnpackedFloat.unpackMantissa b).toNat < 2 ^ 52 :=
        (UnpackedFloat.unpackMantissa b).isLt
      rw [BitVec.toNat_append, ← Nat.shiftLeft_add_eq_or_of_lt hsize]
      rfl
    rw [← hnormal]
    rfl

/-- **The bits and the unpacked float have the same value.** -/
theorem ofFloat_eq (x : Float) : ofFloat x = ofUnpacked x.toModel.unpack := by
  have hfields := ofUnpacked_unpack x.toModel.toBits.toBitVec
  rw [toNat_unpackMantissa, toNat_unpackExponent, toNat_unpackSign] at hfields
  exact hfields.symm

/-- The three fields of a number can be read off its value. -/
theorem ofFields_inj {s e f s' e' f' : Nat} (hs : s < 2) (hs' : s' < 2) (hf : f < leastNormal)
    (hf' : f' < leastNormal) (h : ofFields s e f = ofFields s' e' f')
    (hnumber : ofFields s e f ≠ .notANumber) : s = s' ∧ e = e' ∧ f = f' := by
  have hsign : (s == 1) = (s' == 1) → s = s' := by
    intro hsame
    rw [Bool.eq_iff_iff, beq_iff_eq, beq_iff_eq] at hsame
    omega
  unfold ofFields at h hnumber
  split_ifs at h hnumber <;>
    simp only [reduceCtorEq, ne_eq, not_true_eq_false, infinite.injEq, finite.injEq,
      Int.ofNat_eq_natCast] at h hnumber
  -- two infinite numbers are left, and two finite ones with or without the bit that is not stored
  · exact ⟨hsign h, by omega, by omega⟩
  · exact ⟨hsign h.1, by omega, h.2.1⟩
  · exact ⟨hsign h.1, by omega, by omega⟩
  · exact ⟨hsign h.1, by omega, by omega⟩
  · exact ⟨hsign h.1, by omega, by omega⟩

/-- **Floats with one value are one float**, unless they are no numbers. -/
theorem eq_of_ofFloat_eq {x y : Float} (h : ofFloat x = ofFloat y) (hx : ofFloat x ≠ .notANumber) :
    x = y := by
  have hsize : x.toBits.toNat < 2 ^ 64 := x.toBits.toNat_lt
  have hsize' : y.toBits.toNat < 2 ^ 64 := y.toBits.toNat_lt
  have hnormal : leastNormal = 2 ^ 52 := rfl
  obtain ⟨hsign, hexponent, hfraction⟩ :=
    ofFields_inj (Nat.div_lt_of_lt_mul hsize) (Nat.div_lt_of_lt_mul hsize') (Nat.mod_lt _ (by decide))
      (Nat.mod_lt _ (by decide)) h hx
  have hbits : x.toBits.toNat = y.toBits.toNat := by
    simp only [hnormal, Nat.pow_eq] at hsign hexponent hfraction
    omega
  -- the bits are all there is to a float
  obtain ⟨⟨bits, hvalid⟩⟩ := x
  obtain ⟨⟨bits', hvalid'⟩⟩ := y
  cases UInt64.toNat_inj.mp hbits
  rfl

/-- A mantissa has 53 bits at most, and the exponent of a finite float is not above 971. -/
theorem finite_bounds {x : Float} {negative : Bool} {m : Nat} {q : Int}
    (h : ofFloat x = .finite negative m q) : m < 2 ^ 53 ∧ q ≤ 971 := by
  unfold ofFloat at h
  dsimp only at h
  have hnormal : leastNormal = 2 ^ 52 := rfl
  have hexponent : x.toBits.toNat / leastNormal % Nat.pow 2 11 < 2048 := Nat.mod_lt _ (by decide)
  have hfraction : x.toBits.toNat % leastNormal < 2 ^ 52 := Nat.mod_lt _ (by decide)
  generalize x.toBits.toNat / leastNormal % Nat.pow 2 11 = exponent at h hexponent
  generalize x.toBits.toNat % leastNormal = fraction at h hfraction
  split at h
  · split at h
    · cases h
    · cases h
  split at h
  · cases h
    exact ⟨by omega, by decide⟩
  · cases h
    refine ⟨by omega, ?_⟩
    show (exponent : Int) - 1075 ≤ 971
    omega

end Binary

/-- A float is finite if its value is. -/
theorem isFinite_iff (x : Float) :
    x.isFinite = true ↔ ∃ negative m q, Binary.ofFloat x = .finite negative m q := by
  rw [Binary.ofFloat_eq]
  show UnpackedFloat.isFinite x.toModel.unpack = true ↔ _
  cases x.toModel.unpack with
  | notANumber => simp [UnpackedFloat.isFinite, Binary.ofUnpacked]
  | infinity sign => simp [UnpackedFloat.isFinite, Binary.ofUnpacked]
  | zero sign => simp [UnpackedFloat.isFinite, Binary.ofUnpacked]
  | finite sign m e hm => simp [UnpackedFloat.isFinite, Binary.ofUnpacked]

end PacketTrace

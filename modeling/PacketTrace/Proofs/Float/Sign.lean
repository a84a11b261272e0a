import Mathlib
import PacketTrace.Event.Anchors

/-!
# `Proofs.Float.Sign` — numbers without a minus sign

A float is computed by unpacking its operands, working on signs, mantissas and exponents, and packing
the result. `IsUnsigned` is the part of an unpacked float that survives all of this for the figures of a
trace: it is a number and has no minus sign, while it may be zero or infinite.

## Contents
- **Packing.** A packed float has the sign that it was packed with (`isUnsigned_unpack_pack`).
- **Operations.** Rounding, products and quotients by a positive number, which may be infinite if the dividend
  is not; decimal numerals.
- **Floats.** `Unsigned` says the same of a float; `unsigned_seconds` is about the time of a line.
-/

namespace PacketTrace

open Float.Model
open Float.Model.UnpackedFloat

/-- It is a number, and without a minus sign. -/
def IsUnsigned : UnpackedFloat → Prop
  | .infinity .positive => True
  | .zero .positive => True
  | .finite .positive _ _ _ => True
  | _ => False

/-- It is above zero and not infinite. -/
def IsPositiveFinite : UnpackedFloat → Prop
  | .finite .positive _ _ _ => True
  | _ => False

instance : DecidablePred IsPositiveFinite
  | .finite .positive _ _ _ => .isTrue trivial
  | .finite .negative _ _ _ => .isFalse id
  | .infinity _ => .isFalse id
  | .zero _ => .isFalse id
  | .notANumber => .isFalse id

/-- It is above zero; it may be infinite. -/
def IsPositive : UnpackedFloat → Prop
  | .infinity .positive => True
  | .finite .positive _ _ _ => True
  | _ => False

theorem IsPositive.isUnsigned {u : UnpackedFloat} (h : IsPositive u) : IsUnsigned u := by
  rcases u with (_ | _) | _ | _ | ⟨_ | _, m, e, hm⟩
  case infinity.positive => trivial
  case finite.positive => trivial
  all_goals exact h.elim

/-! ## Packing -/

section

variable (spec : Format)

/-- The highest exponent is read as no number, unless the mantissa is zero. -/
theorem isUnsigned_unpack_packComponents {e : BitVec spec.exponentBits}
    {m : BitVec spec.mantissaBitsWithoutImplicit} (h : e = -1#_ → m = 0#_) :
    IsUnsigned (UnpackedFloat.unpack spec (packComponents spec .positive e m)) := by
  unfold UnpackedFloat.unpack
  simp only [unpackMantissa_packComponents, unpackExponent_packComponents,
    unpackSign_packComponents]
  split
  · rename_i he
    rw [if_pos (h he)]
    trivial
  · split
    · split
      · trivial
      · trivial
    · trivial

/-- An exponent below the highest is not read as the highest. -/
theorem ofNat_ne_neg_one {w n : Nat} (h : n + 1 < 2 ^ w) : BitVec.ofNat w n ≠ -1#w := by
  intro heq
  have hnat := congrArg BitVec.toNat heq
  rw [BitVec.toNat_ofNat, BitVec.neg_one_eq_allOnes, BitVec.toNat_allOnes,
    Nat.mod_eq_of_lt (Nat.lt_of_succ_lt h)] at hnat
  omega

/-- **Packing keeps the sign.** What does not fit becomes infinite. -/
theorem isUnsigned_unpack_pack {u : UnpackedFloat} (h : IsUnsigned u) :
    IsUnsigned (UnpackedFloat.unpack spec (u.pack spec)) := by
  cases u with
  | notANumber => exact h.elim
  | infinity s =>
    cases s with
    | negative => exact h.elim
    | positive => exact isUnsigned_unpack_packComponents spec fun _ => rfl
  | zero s =>
    cases s with
    | negative => exact h.elim
    | positive => exact isUnsigned_unpack_packComponents spec fun _ => rfl
  | finite s m e hm =>
    cases s with
    | negative => exact h.elim
    | positive =>
      unfold UnpackedFloat.pack
      dsimp only
      split
      · exact isUnsigned_unpack_packComponents spec fun _ => rfl
      · rename_i hfits
        split
        · apply isUnsigned_unpack_packComponents
          intro he
          exact absurd he (ofNat_ne_neg_one (by omega))
        · apply isUnsigned_unpack_packComponents
          intro he
          have hwidth : 2 ^ 1 ≤ 2 ^ spec.exponentBits := Nat.pow_le_pow_right (by decide) spec.he
          exact absurd he (ofNat_ne_neg_one (by omega))

/-! ## Operations -/

theorem isUnsigned_roundWithAccuracy (m : Nat) (e : Int) (a : Accuracy) :
    IsUnsigned (roundWithAccuracy spec .positive m e a) := by
  unfold roundWithAccuracy
  dsimp only
  split
  · trivial
  · trivial

/-- A quotient by a positive number is a number, even if the dividend is zero or infinite. -/
theorem isUnsigned_div {u v : UnpackedFloat} (hu : IsUnsigned u) (hv : IsPositiveFinite v) :
    IsUnsigned (UnpackedFloat.div spec u v) := by
  rcases v with _ | _ | _ | ⟨_ | _, n, f, hn⟩
  case finite.positive =>
    rcases u with (_ | _) | _ | (_ | _) | ⟨_ | _, m, e, hm⟩
    case finite.positive => exact isUnsigned_roundWithAccuracy spec _ _ _
    case finite.negative => exact hu.elim
    all_goals exact hu
  all_goals exact hv.elim

/-- A quotient by an infinite number is a number as well, unless the dividend is infinite too. -/
theorem isUnsigned_div_of_isFinite {u v : UnpackedFloat} (hu : IsUnsigned u) (hfinite : u.isFinite = true)
    (hv : IsPositive v) : IsUnsigned (UnpackedFloat.div spec u v) := by
  rcases v with (_ | _) | _ | _ | ⟨_ | _, n, f, hn⟩
  case infinity.positive =>
    rcases u with s | _ | (_ | _) | ⟨_ | _, m, e, hm⟩
    case infinity => cases hfinite
    case zero.positive => trivial
    case finite.positive => trivial
    all_goals exact hu.elim
  case finite.positive => exact isUnsigned_div spec hu trivial
  all_goals exact hv.elim

theorem isUnsigned_mul {u v : UnpackedFloat} (hu : IsUnsigned u) (hv : IsPositiveFinite v) :
    IsUnsigned (UnpackedFloat.mul spec u v) := by
  rcases v with _ | _ | _ | ⟨_ | _, n, f, hn⟩
  case finite.positive =>
    rcases u with (_ | _) | _ | (_ | _) | ⟨_ | _, m, e, hm⟩
    case finite.positive => exact isUnsigned_roundWithAccuracy spec _ _ _
    case finite.negative => exact hu.elim
    all_goals exact hu
  all_goals exact hv.elim

theorem isUnsigned_ofNat (n : Nat) : IsUnsigned (UnpackedFloat.ofNat spec n) := by
  unfold UnpackedFloat.ofNat UnpackedFloat.ofInt UnpackedFloat.normalize
  rcases Nat.eq_zero_or_pos n with rfl | hn
  · trivial
  · have hpos : compare (n : Int) 0 = .gt := Int.compare_eq_gt.mpr (by omega)
    rw [hpos]
    exact isUnsigned_roundWithAccuracy spec _ _ _

/-- A decimal numeral that is too large is infinite and one that is too small is zero. -/
theorem isUnsigned_ofScientific (m : Nat) (e : Int) :
    IsUnsigned (UnpackedFloat.ofScientific spec m e) := by
  unfold UnpackedFloat.ofScientific
  split
  · trivial
  split
  · trivial
  split
  · trivial
  split
  · exact isUnsigned_roundWithAccuracy spec _ _ _
  · exact isUnsigned_roundWithAccuracy spec _ _ _

end

/-! ## Floats -/

/-- The float is a number without a minus sign. -/
def Unsigned (x : Float) : Prop := IsUnsigned x.toModel.unpack

theorem unsigned_pack {u : UnpackedFloat} (h : IsUnsigned u) : Unsigned (.ofModel (.pack u)) :=
  isUnsigned_unpack_pack Format.binary64 h

theorem Unsigned.div {x y : Float} (hx : Unsigned x) (hy : IsPositiveFinite y.toModel.unpack) :
    Unsigned (x / y) :=
  unsigned_pack (isUnsigned_div Format.binary64 hx hy)

theorem Unsigned.div_of_isFinite {x y : Float} (hx : Unsigned x) (hfinite : x.isFinite = true)
    (hy : IsPositive y.toModel.unpack) : Unsigned (x / y) :=
  unsigned_pack (isUnsigned_div_of_isFinite Format.binary64 hx hfinite hy)

theorem Unsigned.mul {x y : Float} (hx : Unsigned x) (hy : IsPositiveFinite y.toModel.unpack) :
    Unsigned (x * y) :=
  unsigned_pack (isUnsigned_mul Format.binary64 hx hy)

/-- The powers of ten that are multiplied or divided by directly. -/
theorem isPositiveFinite_powersOfTen :
    ∀ x ∈ Float.exactlyRepresentablePowersOfTen.toList, IsPositiveFinite x.toModel.unpack := by
  decide +kernel

theorem unsigned_ofScientific (m : Nat) (negative : Bool) (e : Nat) :
    Unsigned (Float.ofScientific m negative e) := by
  unfold Float.ofScientific
  split
  · rename_i hsmall
    have hword : Unsigned m.toUInt64.toFloat :=
      unsigned_pack (isUnsigned_ofNat Format.binary64 m.toUInt64.toNat)
    have hsize : e < Float.exactlyRepresentablePowersOfTen.size := by
      simp [Float.exactlyRepresentablePowersOfTen]
      omega
    have hpower := isPositiveFinite_powersOfTen _ (Array.getElem_mem_toList hsize)
    dsimp only
    split
    · exact hword.div hpower
    · exact hword.mul hpower
  · exact unsigned_pack (isUnsigned_ofScientific Format.binary64 _ _)

theorem unsigned_ofNat (n : Nat) : Unsigned (Float.ofNat n) := unsigned_ofScientific n false 0

/-- **The time of a line is a number, not below zero.** It may be infinite. -/
theorem unsigned_seconds (whole fraction : Text) : Unsigned (Anchors.seconds whole fraction) :=
  unsigned_ofScientific _ _ _

end PacketTrace

import PacketTrace.Proofs.Float.Rounding
import PacketTrace.Text.Basic

/-!
# `Proofs.Float.Magnitude` — how large floats become

The operations on floats round the exact result. So if the exact result is below the largest float, then
the float is finite and near it. Signs do not matter for this.

## Contents
- **Operations.** Products, quotients and whole numbers, unpacked.
- **Floats.** `floatMagnitude?` and the same operations.
- **Numerals.** `NearTo` for decimals (`nearTo_ofScientific`) and words (`nearTo_ofNat`).
- **Decimal fractions.** `IsRounded` and `isRounded_ofScientific`, however many digits there are.
-/

namespace PacketTrace

open Float.Model
open Float.Model.UnpackedFloat

/-! ## Operations -/

/-- All 53 bits are used, unless the exponent is the least one. -/
def IsCanonical : UnpackedFloat → Prop
  | .finite _ m e _ => 2 ^ 52 ≤ m ∨ e = -1074
  | _ => True

theorem isCanonical_unpack (b : BitVec Format.binary64.numBits) :
    IsCanonical (UnpackedFloat.unpack Format.binary64 b) := by
  unfold UnpackedFloat.unpack
  dsimp only
  split
  · split
    · trivial
    · trivial
  split
  · rename_i hleast
    split
    · trivial
    · rw [hleast]
      exact .inr rfl
  · left
    rw [BitVec.toNat_append, ← Nat.shiftLeft_add_eq_or_of_lt (BitVec.isLt _)]
    exact Nat.le_add_right (2 ^ 52) _

/-- What has all its bits is not moved up before it is rounded. -/
theorem le_roundingExponent {m : Nat} {e : Int} (h : 2 ^ 52 ≤ m ∨ e ≤ -1074) :
    e ≤ roundingExponent m e := by
  unfold roundingExponent
  rcases h with hbits | hsmall
  · have hlog : 52 ≤ m.log2 := (Nat.le_log2 (by omega)).mpr hbits
    omega
  · omega

/-- A product has all its bits, since one of its factors does or both are below the least normal number. -/
theorem le_roundingExponent_mul {m n : Nat} {e f : Int} (hm : 2 ^ 52 ≤ m ∨ e = -1074)
    (hn : 2 ^ 52 ≤ n ∨ f = -1074) (hm' : 0 < m) (hn' : 0 < n) :
    e + f ≤ roundingExponent (m * n) (e + f) := by
  apply le_roundingExponent
  rcases hm with hm | rfl
  · exact .inl (le_trans hm (Nat.le_mul_of_pos_right m hn'))
  rcases hn with hn | rfl
  · exact .inl (le_trans hn (Nat.le_mul_of_pos_left n hm'))
  · exact .inr (by decide)

theorem roundingError_nonneg {v : ℚ} (hv : 0 ≤ v) : 0 ≤ roundingError v := by
  unfold roundingError
  positivity

theorem roundingError_mono {v w : ℚ} (h : v ≤ w) : roundingError v ≤ roundingError w := by
  unfold roundingError
  have hquotient : v / 2 ^ 52 ≤ w / 2 ^ 52 := div_le_div_of_nonneg_right h (by positivity)
  linarith

theorem magnitude?_nonneg {u : UnpackedFloat} {v : ℚ} (h : magnitude? u = some v) : 0 ≤ v := by
  cases u with
  | notANumber => cases h
  | infinity s => cases h
  | zero s =>
    cases h
    exact le_refl _
  | finite s m e hm =>
    cases h
    positivity

/-- What becomes of a value when it is rounded and packed: a float that is not farther from it than its
rounding error. -/
def RoundsTo (u : UnpackedFloat) (v : ℚ) : Prop :=
  ∃ q, magnitude? (UnpackedFloat.unpack Format.binary64 (UnpackedFloat.pack Format.binary64 u)) = some q ∧
    q ≤ v + roundingError v ∧ v ≤ q + roundingError v

theorem roundsTo_zero (s : Sign) : RoundsTo (.zero s) 0 := by
  have herror := roundingError_nonneg (le_refl 0)
  refine ⟨0, ?_, by linarith, by linarith⟩
  show magnitude? (UnpackedFloat.unpack Format.binary64 (packedZero Format.binary64 s)) = _
  rw [unpack_packedZero]
  rfl

/-- **A product** below the largest float is rounded. -/
theorem roundsTo_mul {x y : UnpackedFloat} (hx : IsCanonical x) (hy : IsCanonical y) {v w : ℚ}
    (hv : magnitude? x = some v) (hw : magnitude? y = some w) (hlt : v * w < largest) :
    RoundsTo (UnpackedFloat.mul Format.binary64 x y) (v * w) := by
  rcases x with s | _ | s | ⟨s, m, e, hm⟩
  case infinity => cases hv
  case notANumber => cases hv
  case zero =>
    cases hv
    rw [zero_mul]
    rcases y with s' | _ | s' | ⟨s', n, f, hn⟩
    case infinity => cases hw
    case notANumber => cases hw
    all_goals exact roundsTo_zero _
  case finite =>
    rcases y with s' | _ | s' | ⟨s', n, f, hn⟩
    case infinity => cases hw
    case notANumber => cases hw
    case zero =>
      cases hw
      rw [mul_zero]
      exact roundsTo_zero _
    case finite =>
      cases hv
      cases hw
      have hvalue : (m : ℚ) * 2 ^ e * (n * 2 ^ f) = ((m * n : Nat) : ℚ) * 2 ^ (e + f) := by
        rw [zpow_add₀ (by norm_num)]
        push_cast
        ring
      rw [hvalue] at hlt ⊢
      exact exists_magnitude?_round (le_roundingExponent_mul hx hy hm hn) hlt _ _

/-- A whole number with at most 53 bits is not rounded. -/
theorem magnitude?_ofNat {n : Nat} (hn : n < 2 ^ 53) :
    magnitude? (UnpackedFloat.unpack Format.binary64
      (UnpackedFloat.pack Format.binary64 (UnpackedFloat.ofNat Format.binary64 n))) = some (n : ℚ) := by
  unfold UnpackedFloat.ofNat UnpackedFloat.ofInt UnpackedFloat.normalize
  rcases Nat.eq_zero_or_pos n with rfl | hpos
  · show magnitude? (UnpackedFloat.unpack Format.binary64 (packedZero Format.binary64 _)) = _
    rw [unpack_packedZero]
    rfl
  · have hgreater : compare (n : Int) 0 = .gt := Int.compare_eq_gt.mpr (by omega)
    have hlog : n.log2 ≤ 52 := Nat.le_of_lt_succ ((Nat.log2_lt hpos.ne').mpr hn)
    have hexponent : roundingExponent n 0 = n.log2 - 52 := by
      unfold roundingExponent
      omega
    rw [hgreater]
    show magnitude? (UnpackedFloat.unpack Format.binary64 (UnpackedFloat.pack Format.binary64
      (UnpackedFloat.round Format.binary64 .positive n 0))) = _
    unfold UnpackedFloat.round decreaseExponent
    rw [targetExponent_eq, hexponent]
    dsimp only
    generalize hshift : (0 - ((n.log2 : Int) - 52)).toNat = shift
    have hsum : n.log2 + shift = 52 := by omega
    have hbits : 2 ^ 52 ≤ n <<< shift := by
      rw [Nat.shiftLeft_eq, ← hsum, Nat.pow_add]
      exact Nat.mul_le_mul_right _ (Nat.log2_self_le hpos.ne')
    have hsize : n <<< shift < 2 ^ 53 := by
      have hpower : 2 ^ 53 = 2 ^ (n.log2 + 1) * 2 ^ shift := by
        rw [← Nat.pow_add]
        congr 1
        omega
      rw [Nat.shiftLeft_eq, hpower]
      exact Nat.mul_lt_mul_of_pos_right Nat.lt_log2_self (Nat.two_pow_pos shift)
    have hleast : -1074 ≤ (0 : Int) - shift := by omega
    have hround : roundWithAccuracy Format.binary64 .positive (n <<< shift) (0 - shift) .exact =
        .finite .positive (n <<< shift) (0 - shift) (by omega) := by
      unfold roundWithAccuracy
      rw [shiftToTargetExponent_of_lt hsize hleast]
      dsimp only
      have hrounded : ExtendedMantissa.roundedMantissa ⟨n <<< shift, false, false⟩ = n <<< shift := rfl
      rw [hrounded, shiftToTargetExponent_of_lt hsize hleast]
      exact dif_neg (show ¬ n <<< shift = 0 by omega)
    rw [hround, unpack_pack_finite hsize hleast (by omega) (.inl hbits), magnitude?, Nat.shiftLeft_eq,
      zero_sub, zpow_neg, zpow_natCast]
    push_cast
    rw [mul_inv_cancel_right₀ (by positivity)]

/-- A quotient has all its bits before it is rounded, unless it is below the least normal number; and it
is cut off there, which takes away less than one more bit. -/
theorem exists_divCore {m n : Nat} (hm : 0 < m) (hn : 0 < n) (e f : Int) :
    ∃ k d a, divCore Format.binary64 m e n f = (k, d, a) ∧ (2 ^ 52 ≤ k ∨ d ≤ -1074) ∧
      (k : ℚ) * 2 ^ d ≤ m * 2 ^ e / (n * 2 ^ f) ∧ m * 2 ^ e / (n * 2 ^ f) ≤ ((k : ℚ) + 1) * 2 ^ d := by
  unfold divCore totalExponent Format.targetExponent
  dsimp only
  generalize hd : min (e - f) _ = d
  generalize hshift : (e - f - d).toNat = shift
  have hmin : Format.binary64.minExponent = -1074 := rfl
  have hsize : (Format.binary64.mantissaBits : Int) = 53 := rfl
  have hsum : e - f = d + shift := by omega
  have hscale : (2 : ℚ) ^ e = 2 ^ shift * 2 ^ d * 2 ^ f := by
    rw [← zpow_natCast, ← zpow_add₀ (by norm_num), ← zpow_add₀ (by norm_num)]
    congr 1
    omega
  have hvalue : (m : ℚ) * 2 ^ e / (n * 2 ^ f) = m * 2 ^ shift / n * 2 ^ d := by
    rw [hscale]
    field_simp
  have hn' : (0 : ℚ) < n := by exact_mod_cast hn
  have hd' : (0 : ℚ) ≤ 2 ^ d := by positivity
  refine ⟨_, _, _, rfl, ?_, ?_⟩
  · by_cases hsmall : d ≤ -1074
    · exact .inr hsmall
    · left
      have hbits : n.log2 + 1 + 52 ≤ m.log2 + shift := by omega
      rw [Nat.le_div_iff_mul_le hn, Nat.shiftLeft_eq]
      calc 2 ^ 52 * n ≤ 2 ^ 52 * 2 ^ (n.log2 + 1) := Nat.mul_le_mul_left _ Nat.lt_log2_self.le
        _ = 2 ^ (n.log2 + 1 + 52) := by rw [Nat.mul_comm, ← Nat.pow_add]
        _ ≤ 2 ^ (m.log2 + shift) := Nat.pow_le_pow_right (by decide) hbits
        _ = 2 ^ m.log2 * 2 ^ shift := Nat.pow_add 2 _ _
        _ ≤ m * 2 ^ shift := Nat.mul_le_mul_right _ (Nat.log2_self_le hm.ne')
  · rw [hvalue, Nat.shiftLeft_eq]
    constructor
    · refine mul_le_mul_of_nonneg_right ?_ hd'
      rw [le_div_iff₀ hn']
      exact_mod_cast Nat.div_mul_le_self (m * 2 ^ shift) n
    · refine mul_le_mul_of_nonneg_right ?_ hd'
      rw [div_le_iff₀ hn']
      have hnext : m * 2 ^ shift ≤ (m * 2 ^ shift / n + 1) * n := by
        rw [Nat.mul_comm _ n]
        exact (Nat.lt_mul_div_succ _ hn).le
      exact_mod_cast hnext

/-- The last bit of what is cut off so is worth no more than a rounding error. -/
theorem two_zpow_le_roundingError {k : Nat} {d : Int} {v : ℚ} (hbits : 2 ^ 52 ≤ k ∨ d ≤ -1074)
    (hle : (k : ℚ) * 2 ^ d ≤ v) : (2 : ℚ) ^ d ≤ roundingError v := by
  have hweight : (0 : ℚ) < 2 ^ d := by positivity
  have hleast : (0 : ℚ) < 2 ^ (-1074 : ℤ) := by positivity
  have hv : 0 ≤ v := le_trans (by positivity) hle
  unfold roundingError
  rcases hbits with hbits | hsmall
  · have hbits' : (2 : ℚ) ^ 52 ≤ k := by exact_mod_cast hbits
    have hquotient : (2 : ℚ) ^ d ≤ v / 2 ^ 52 := by
      rw [le_div_iff₀ (by positivity), mul_comm]
      exact le_trans (mul_le_mul_of_nonneg_right hbits' hweight.le) hle
    linarith
  · have hpower : (2 : ℚ) ^ d ≤ 2 ^ (-1074 : ℤ) := zpow_le_zpow_right₀ (by norm_num) hsmall
    have hquotient : 0 ≤ v / 2 ^ 52 := by positivity
    linarith

/-- **A quotient** below the largest float is cut off and rounded, which takes away two rounding errors at
most and adds one. -/
theorem exists_magnitude?_div {x y : UnpackedFloat} {v w : ℚ}
    (hv : magnitude? x = some v) (hw : magnitude? y = some w) (hpos : 0 < w) (hlt : v / w < largest) :
    ∃ q, magnitude? (UnpackedFloat.unpack Format.binary64
        (UnpackedFloat.pack Format.binary64 (UnpackedFloat.div Format.binary64 x y))) = some q ∧
      q ≤ v / w + roundingError (v / w) ∧ v / w ≤ q + 2 * roundingError (v / w) := by
  rcases y with s' | _ | s' | ⟨s', n, f, hn⟩
  case infinity => cases hw
  case notANumber => cases hw
  case zero =>
    cases hw
    exact absurd hpos (lt_irrefl 0)
  case finite =>
    rcases x with s | _ | s | ⟨s, m, e, hm⟩
    case infinity => cases hv
    case notANumber => cases hv
    case zero =>
      cases hv
      rw [zero_div]
      have herror := roundingError_nonneg (le_refl 0)
      obtain ⟨q, hq, hle, hge⟩ := roundsTo_zero (s / s')
      exact ⟨q, hq, hle, by linarith⟩
    case finite =>
      cases hv
      cases hw
      obtain ⟨k, d, a, hcore, hbits, hle, hnext⟩ := exists_divCore hm hn e f
      obtain ⟨q, hq, hbound, hbound'⟩ :=
        exists_magnitude?_round (le_roundingExponent hbits) (lt_of_le_of_lt hle hlt) (s / s') a
      have herror := roundingError_mono hle
      have hbit := two_zpow_le_roundingError hbits hle
      refine ⟨q, ?_, by linarith, ?_⟩
      · unfold UnpackedFloat.div
        dsimp only
        rw [hcore]
        exact hq
      · rw [add_mul, one_mul] at hnext
        linarith

/-! ## Floats -/

/-- The value of a float without its sign, if it is finite. -/
def floatMagnitude? (x : Float) : Option ℚ := magnitude? x.toModel.unpack

theorem isFinite_of_magnitude {x : Float} {v : ℚ} (h : floatMagnitude? x = some v) :
    x.isFinite = true ∧ x.isInf = false := by
  show UnpackedFloat.isFinite x.toModel.unpack = true ∧ UnpackedFloat.isInf x.toModel.unpack = false
  unfold floatMagnitude? at h
  cases hx : x.toModel.unpack with
  | notANumber => rw [hx] at h; cases h
  | infinity s => rw [hx] at h; cases h
  | zero s => exact ⟨rfl, rfl⟩
  | finite s m e hm => exact ⟨rfl, rfl⟩

theorem exists_magnitude_mul {x y : Float} {v w : ℚ} (hx : floatMagnitude? x = some v)
    (hy : floatMagnitude? y = some w) (hlt : v * w < largest) :
    ∃ q, floatMagnitude? (x * y) = some q ∧ q ≤ v * w + roundingError (v * w) ∧
      v * w ≤ q + roundingError (v * w) :=
  roundsTo_mul (isCanonical_unpack _) (isCanonical_unpack _) hx hy hlt

theorem exists_magnitude_div {x y : Float} {v w : ℚ} (hx : floatMagnitude? x = some v)
    (hy : floatMagnitude? y = some w) (hpos : 0 < w) (hlt : v / w < largest) :
    ∃ q, floatMagnitude? (x / y) = some q ∧ q ≤ v / w + roundingError (v / w) ∧
      v / w ≤ q + 2 * roundingError (v / w) :=
  exists_magnitude?_div hx hy hpos hlt

/-- Nor is it as a float. -/
theorem floatMagnitude?_toFloat {m : Nat} (hm : m < 2 ^ 53) :
    floatMagnitude? m.toUInt64.toFloat = some (m : ℚ) := by
  have hword : m.toUInt64.toNat = m := by
    show m % 2 ^ 64 = m
    omega
  show magnitude? (UnpackedFloat.unpack Format.binary64
    (UnpackedFloat.pack Format.binary64 (UnpackedFloat.ofNat Format.binary64 m.toUInt64.toNat))) = _
  rw [hword]
  exact magnitude?_ofNat hm

/-! ## Numerals -/

theorem two_pow_lt_largest {k : Nat} (hk : k ≤ 1023) : (2 : ℚ) ^ k < largest := by
  have hscale : (2 : ℚ) ^ (971 : ℤ) = 2 ^ 971 := zpow_ofNat 2 971
  unfold largest
  rw [hscale]
  calc (2 : ℚ) ^ k ≤ 2 ^ 1023 := pow_le_pow_right₀ (by norm_num) hk
    _ = 2 ^ 52 * 2 ^ 971 := by rw [← pow_add]
    _ < (2 ^ 53 - 1) * 2 ^ 971 := mul_lt_mul_of_pos_right (by norm_num) (by positivity)

/-- The error of a number from one on is relative to the number. -/
theorem roundingError_le_of_one_le {v : ℚ} (hv : 1 ≤ v) : roundingError v ≤ v / 2 ^ 51 := by
  have hleast : (2 : ℚ) ^ (-1074 : ℤ) ≤ 1 / 2 ^ 52 := by
    calc (2 : ℚ) ^ (-1074 : ℤ) ≤ 2 ^ (-52 : ℤ) := zpow_le_zpow_right₀ (by norm_num) (by norm_num)
      _ = 1 / 2 ^ 52 := by norm_num
  have hquotient : 1 / 2 ^ 52 ≤ v / 2 ^ 52 := div_le_div_of_nonneg_right hv (by positivity)
  unfold roundingError
  linarith

/-- The table of powers of ten is exact. -/
theorem magnitude_powersOfTen :
    ∀ e, (h : e < Float.exactlyRepresentablePowersOfTen.size) →
      floatMagnitude? Float.exactlyRepresentablePowersOfTen[e] = some (10 ^ e) := by
  decide +kernel

/-- The float is finite and near the value, with room for some errors of later operations. -/
def NearTo (x : Float) (v : ℚ) : Prop :=
  ∃ q, floatMagnitude? x = some q ∧ q ≤ v + v / 2 ^ 49 ∧ v ≤ q + v / 2 ^ 49

/-- A small number times a power of ten from the table. -/
theorem nearTo_product {m e : Nat} (hm : 0 < m) (hsmall : m < 2 ^ 53)
    (he : e < Float.exactlyRepresentablePowersOfTen.size) :
    NearTo (m.toUInt64.toFloat * Float.exactlyRepresentablePowersOfTen[e]) (m * 10 ^ e) := by
  have hmantissa : (m : ℚ) ≤ 2 ^ 53 := by exact_mod_cast hsmall.le
  have hpower : (10 : ℚ) ^ e ≤ 10 ^ 22 := pow_le_pow_right₀ (by norm_num) (Nat.le_of_lt_succ he)
  have hvalue : (1 : ℚ) ≤ m * 10 ^ e :=
    one_le_mul_of_one_le_of_one_le (by exact_mod_cast hm) (one_le_pow₀ (by norm_num))
  have hbound : (m : ℚ) * 10 ^ e < largest :=
    calc (m : ℚ) * 10 ^ e ≤ 2 ^ 53 * 10 ^ 22 := mul_le_mul hmantissa hpower (by positivity) (by positivity)
      _ ≤ 2 ^ 128 := by norm_num
      _ < largest := two_pow_lt_largest (by decide)
  obtain ⟨q, hq, hqle, hleq⟩ :=
    exists_magnitude_mul (floatMagnitude?_toFloat hsmall) (magnitude_powersOfTen e he) hbound
  have herror := roundingError_le_of_one_le hvalue
  exact ⟨q, hq, by linarith, by linarith⟩

/-- Any other decimal is rounded only once. -/
theorem roundsTo_ofScientific {m e : Nat} (hm : 0 < m) (he : e ≤ 308) (hlt : (m : ℚ) * 10 ^ e < largest) :
    RoundsTo (UnpackedFloat.ofScientific Format.binary64 m (e : Int)) (m * 10 ^ e) := by
  have hscale : (((m <<< 53) * 10 ^ e : Nat) : ℚ) * 2 ^ ((-53 : Int) + 0) = m * 10 ^ e := by
    have hweight : (2 : ℚ) ^ ((-53 : Int) + 0) = (2 ^ 53)⁻¹ := by
      rw [add_zero, zpow_neg, zpow_ofNat]
    rw [hweight, Nat.shiftLeft_eq, Nat.mul_right_comm]
    push_cast
    exact mul_inv_cancel_right₀ (by positivity) _
  have hbits : 2 ^ 52 ≤ (m <<< 53) * 10 ^ e := by
    rw [Nat.shiftLeft_eq]
    calc 2 ^ 52 ≤ m * 2 ^ 53 := by omega
      _ ≤ m * 2 ^ 53 * 10 ^ e := Nat.le_mul_of_pos_right _ (Nat.pow_pos (by decide))
  have hround := exists_magnitude?_round (le_roundingExponent (.inl hbits))
    (show _ < largest by rw [hscale]; exact hlt) .positive .exact
  rw [hscale] at hround
  have hrange : ¬ (e : Int) > 2 ^ 11 := by omega
  have hrange' : ¬ (e : Int) < -(2 ^ 11 + m.log2) := by omega
  unfold UnpackedFloat.ofScientific
  rw [dif_neg hm.ne', if_neg hrange, if_neg hrange', if_pos (Int.natCast_nonneg e)]
  exact hround

/-- **A decimal is rounded to a float** near it. -/
theorem nearTo_ofScientific {m e : Nat} (hm : 0 < m) (he : e ≤ 308)
    (hlt : (m : ℚ) * 10 ^ e < largest) : NearTo (Float.ofScientific m false e) (m * 10 ^ e) := by
  unfold Float.ofScientific
  split
  · rename_i hsmall
    exact nearTo_product hm hsmall.1 (Nat.lt_succ_of_le hsmall.2)
  · have hvalue : (1 : ℚ) ≤ m * 10 ^ e :=
      one_le_mul_of_one_le_of_one_le (by exact_mod_cast hm) (one_le_pow₀ (by norm_num))
    obtain ⟨q, hq, hqle, hleq⟩ := roundsTo_ofScientific hm he hlt
    have herror := roundingError_le_of_one_le hvalue
    exact ⟨q, hq, by linarith, by linarith⟩

theorem cast_le_of_word {n : Nat} (hn : n ≤ maxWord) : (n : ℚ) ≤ 2 ^ 64 := by
  have hword : n ≤ 2 ^ 64 := le_trans hn (by decide)
  exact_mod_cast hword

/-- **A word is rounded to a float** near it. -/
theorem nearTo_ofNat {n : Nat} (hn : n ≤ maxWord) : NearTo (Float.ofNat n) n := by
  rcases Nat.eq_zero_or_pos n with rfl | hpos
  · refine ⟨0, ?_, by norm_num, by norm_num⟩
    decide +kernel
  have hlt : (n : ℚ) * 10 ^ 0 < largest := by
    rw [pow_zero, mul_one]
    exact lt_of_le_of_lt (cast_le_of_word hn) (two_pow_lt_largest (by decide))
  have hrounded := nearTo_ofScientific hpos (Nat.zero_le 308) hlt
  rw [pow_zero, mul_one] at hrounded
  exact hrounded

/-! ## Decimal fractions -/

/-- The value of a number without its sign is near `v`: two rounding errors are between them at most. -/
def IsRounded (value? : Option ℚ) (v : ℚ) : Prop :=
  ∃ q, value? = some q ∧ |q - v| ≤ 2 * roundingError v

theorem isRounded_of_le {value? : Option ℚ} {v q : ℚ} (hv : 0 ≤ v) (hq : value? = some q)
    (hle : q ≤ v + roundingError v) (hge : v ≤ q + 2 * roundingError v) : IsRounded value? v := by
  have herror := roundingError_nonneg hv
  exact ⟨q, hq, abs_le.mpr ⟨by linarith, by linarith⟩⟩

/-- A decimal fraction with so many places is not told from zero. -/
theorem div_ten_pow_le {m e : Nat} (h : 2 ^ 11 + m.log2 < e) : (m : ℚ) / 10 ^ e ≤ 2 ^ (-1074 : ℤ) := by
  have hbits : (m : ℚ) ≤ 2 ^ (m.log2 + 1) := by exact_mod_cast Nat.lt_log2_self.le
  have hten : (2 : ℚ) ^ (m.log2 + 1 + 1074) ≤ 10 ^ e :=
    calc (2 : ℚ) ^ (m.log2 + 1 + 1074) ≤ 2 ^ e := pow_le_pow_right₀ (by norm_num) (by omega)
      _ ≤ 10 ^ e := pow_le_pow_left₀ (by norm_num) (by norm_num) e
  have hpower : (2 : ℚ) ^ (-1074 : ℤ) = (2 ^ 1074)⁻¹ := by rw [zpow_neg, zpow_ofNat]
  rw [div_le_iff₀ (by positivity), hpower]
  calc (m : ℚ) ≤ 2 ^ (m.log2 + 1) := hbits
    _ = (2 ^ 1074)⁻¹ * 2 ^ (m.log2 + 1 + 1074) := by
      rw [pow_add 2 (m.log2 + 1) 1074, mul_comm, mul_inv_cancel_right₀ (by positivity)]
    _ ≤ (2 ^ 1074)⁻¹ * 10 ^ e := mul_le_mul_of_nonneg_left hten (by positivity)

/-- A decimal fraction that is no quotient of small numbers. -/
theorem isRounded_ofScientific_neg {m e : Nat} (hlt : (m : ℚ) / 10 ^ e < largest) :
    IsRounded (magnitude? (UnpackedFloat.unpack Format.binary64 (UnpackedFloat.pack Format.binary64
      (UnpackedFloat.ofScientific Format.binary64 m (-(e : Int)))))) (m / 10 ^ e) := by
  have hv : (0 : ℚ) ≤ m / 10 ^ e := by positivity
  have herror := roundingError_nonneg hv
  have hzero (s : Sign) : magnitude? (UnpackedFloat.unpack Format.binary64
      (UnpackedFloat.pack Format.binary64 (.zero s))) = some 0 := by
    show magnitude? (UnpackedFloat.unpack Format.binary64 (packedZero Format.binary64 s)) = _
    rw [unpack_packedZero]
    rfl
  rcases Nat.eq_zero_or_pos m with rfl | hm
  · rw [Nat.cast_zero, zero_div] at herror ⊢
    exact isRounded_of_le (le_refl 0) (hzero _) (by linarith) (by linarith)
  rcases Nat.eq_zero_or_pos e with rfl | he
  · rw [pow_zero, div_one] at hlt herror hv ⊢
    obtain ⟨q, hq, hle, hge⟩ := roundsTo_ofScientific hm (Nat.zero_le 308) (by simpa using hlt)
    rw [pow_zero, mul_one] at hle hge
    exact isRounded_of_le hv hq hle (by linarith)
  · have hhigh : ¬ -(e : Int) > 2 ^ 11 := by omega
    have hnot : ¬ 0 ≤ -(e : Int) := by omega
    unfold UnpackedFloat.ofScientific
    rw [dif_neg hm.ne', if_neg hhigh, if_neg hnot]
    split
    · rename_i hlow
      have hlow' : -(e : Int) < -(2 ^ 11 + m.log2) := hlow
      have hsmall := div_ten_pow_le (show 2 ^ 11 + m.log2 < e by omega)
      have hleast := two_zpow_le_roundingError (k := 0) (.inr (le_refl _)) (by simpa using hv)
      exact isRounded_of_le hv (hzero _) (by linarith) (by linarith)
    · have hone : (m : ℚ) * 2 ^ (0 : ℤ) = m := by rw [zpow_zero, mul_one]
      have hten : ((10 ^ (-(-(e : Int))).toNat : Nat) : ℚ) * 2 ^ (0 : ℤ) = 10 ^ e := by
        rw [neg_neg, Int.toNat_natCast, zpow_zero, mul_one]
        push_cast
        rfl
      obtain ⟨q, hq, hle, hge⟩ := exists_magnitude?_div
        (x := .finite .positive m 0 hm) (y := .finite .positive (10 ^ (-(-(e : Int))).toNat) 0 (by positivity))
        (congrArg some hone) (congrArg some hten) (by positivity) hlt
      exact isRounded_of_le hv hq hle hge

/-- **A decimal fraction is rounded to a float**, if it is below the largest one. -/
theorem isRounded_ofScientific {m e : Nat} (hlt : (m : ℚ) / 10 ^ e < largest) :
    IsRounded (floatMagnitude? (Float.ofScientific m true e)) (m / 10 ^ e) := by
  unfold Float.ofScientific
  split
  · rename_i hsmall
    obtain ⟨q, hq, hle, hge⟩ := exists_magnitude_div (floatMagnitude?_toFloat hsmall.1)
      (magnitude_powersOfTen e (Nat.lt_succ_of_le hsmall.2)) (by positivity) hlt
    exact isRounded_of_le (by positivity) hq hle hge
  · have hexponent : -(e : Int) = Int.negOfNat e := Int.negOfNat_eq.symm
    have hrounded := isRounded_ofScientific_neg hlt
    rw [hexponent] at hrounded
    exact hrounded

end PacketTrace

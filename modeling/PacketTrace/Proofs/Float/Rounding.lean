import PacketTrace.Proofs.Float.Sign

/-!
# `Proofs.Float.Rounding` — how far rounding goes

A value is rounded by dropping the bits of its mantissa that do not fit; what is dropped is made up for by one
bit at most. So a float is not farther from the value than its rounding error, as long as the value is below
the largest float (`exists_magnitude?_round`). The bound is not the best one, which is half of it, but it
needs nothing about ties.

## Contents
- **Shifting.** How many bits are dropped, and which are kept.
- **Rounding.** `ofMantissa` and `exists_rounded`.
- **Packing.** What fits is packed without loss (`unpack_pack_ofMantissa`).
- **Values.** `magnitude?`, `roundingError` and the bound.
-/

namespace PacketTrace

open Float.Model
open Float.Model.UnpackedFloat

/-! ## Shifting -/

theorem mantissa_shiftRight (em : ExtendedMantissa) (k : Nat) :
    (em >>> k).mantissa = em.mantissa / 2 ^ k := by
  induction k with
  | zero => exact (Nat.div_one _).symm
  | succ k ih =>
    show (em >>> k).mantissa / 2 = _
    rw [ih, Nat.div_div_eq_div_mul, Nat.pow_succ]

theorem mantissa_le_roundedMantissa (em : ExtendedMantissa) :
    em.mantissa ≤ em.roundedMantissa ∧ em.roundedMantissa ≤ em.mantissa + 1 := by
  obtain ⟨m, _ | _, _ | _⟩ := em
  · exact ⟨le_refl _, Nat.le_succ _⟩
  · exact ⟨le_refl _, Nat.le_succ _⟩
  · show m ≤ m + m % 2 ∧ m + m % 2 ≤ m + 1
    omega
  · exact ⟨Nat.le_succ _, le_refl _⟩

/-- The exponent at which a number is rounded: 53 bits are kept, and none below the least one of all. -/
def roundingExponent (m : Nat) (e : Int) : Int := max (m.log2 + e - 52) (-1074)

theorem targetExponent_eq (m : Nat) (e : Int) :
    Format.binary64.targetExponent (totalExponent m e) = roundingExponent m e := by
  simp only [Format.targetExponent, totalExponent, Format.mantissaBits, Format.minExponent,
    roundingExponent]
  norm_num
  omega

/-- How many bits of a mantissa are dropped by rounding. -/
def droppedBits (m : Nat) (e : Int) : Nat := (roundingExponent m e - e).toNat

theorem shiftToTargetExponent_mantissa (m : Nat) (e : Int) (a : Accuracy) :
    (shiftToTargetExponent Format.binary64 m e a).1.mantissa = m / 2 ^ droppedBits m e := by
  unfold shiftToTargetExponent shiftToExponent
  dsimp only
  rw [targetExponent_eq, mantissa_shiftRight]
  cases a with
  | exact => rfl
  | inexact o => cases o <;> rfl

theorem shiftToTargetExponent_exponent {m : Nat} {e : Int} (he : e ≤ roundingExponent m e)
    (a : Accuracy) : (shiftToTargetExponent Format.binary64 m e a).2 = roundingExponent m e := by
  unfold shiftToTargetExponent shiftToExponent
  dsimp only
  rw [targetExponent_eq]
  omega

theorem div_lt_of_droppedBits (m : Nat) (e : Int) : m / 2 ^ droppedBits m e < 2 ^ 53 := by
  have hbits : m.log2 + 1 ≤ 53 + droppedBits m e := by
    unfold droppedBits roundingExponent
    omega
  rw [Nat.div_lt_iff_lt_mul (Nat.two_pow_pos _), ← Nat.pow_add]
  exact Nat.lt_of_lt_of_le Nat.lt_log2_self (Nat.pow_le_pow_right (by decide) hbits)

/-- All 53 bits are used, unless the number is below the least normal one. -/
theorem le_div_of_droppedBits {m : Nat} {e : Int} (he : e ≤ roundingExponent m e)
    (hnormal : roundingExponent m e ≠ -1074) : 2 ^ 52 ≤ m / 2 ^ droppedBits m e := by
  have hbits : 52 + droppedBits m e = m.log2 := by
    unfold droppedBits
    unfold roundingExponent at hnormal he ⊢
    omega
  have hm : m ≠ 0 := by
    rintro rfl
    rw [Nat.log2_zero] at hbits
    omega
  rw [Nat.le_div_iff_mul_le (Nat.two_pow_pos _), ← Nat.pow_add, hbits]
  exact Nat.log2_self_le hm

/-! ## Rounding -/

/-- A number with at most 53 bits, or `2 ^ 53`, in the form that can be packed. -/
def ofMantissa (s : Sign) (r : Nat) (t : Int) : UnpackedFloat :=
  if hzero : r = 0 then .zero s
  else if r < 2 ^ 53 then .finite s r t (Nat.pos_of_ne_zero hzero)
  else .finite s (2 ^ 52) (t + 1) (by decide)

/-- A mantissa that fits is not shifted again. -/
theorem shiftToTargetExponent_of_lt {r : Nat} (hr : r < 2 ^ 53) {t : Int} (ht : -1074 ≤ t) :
    shiftToTargetExponent Format.binary64 r t .exact = (⟨r, false, false⟩, t) := by
  have hbits : r.log2 ≤ 52 := by
    rcases Nat.eq_zero_or_pos r with rfl | hpos
    · decide
    · exact Nat.le_of_lt_succ ((Nat.log2_lt hpos.ne').mpr hr)
  have hshift : (roundingExponent r t - t).toNat = 0 := by
    unfold roundingExponent
    omega
  unfold shiftToTargetExponent shiftToExponent
  dsimp only
  rw [targetExponent_eq, hshift]
  exact congrArg _ (Int.add_zero t)

/-- A mantissa that has grown by one bit is shifted once more, and loses nothing. -/
theorem shiftToTargetExponent_two_pow {t : Int} (ht : -1074 ≤ t) :
    shiftToTargetExponent Format.binary64 (2 ^ 53) t .exact = (⟨2 ^ 52, false, false⟩, t + 1) := by
  have hshift : (roundingExponent (2 ^ 53) t - t).toNat = 1 := by
    unfold roundingExponent
    rw [Nat.log2_two_pow]
    omega
  unfold shiftToTargetExponent shiftToExponent
  dsimp only
  rw [targetExponent_eq, hshift]
  rfl

/-- **What rounding does.** The bits that are dropped are made up for by at most one. -/
theorem exists_rounded {m : Nat} {e : Int} (he : e ≤ roundingExponent m e) (s : Sign) (a : Accuracy) :
    ∃ r, m / 2 ^ droppedBits m e ≤ r ∧ r ≤ m / 2 ^ droppedBits m e + 1 ∧
      roundWithAccuracy Format.binary64 s m e a = ofMantissa s r (roundingExponent m e) := by
  obtain ⟨hlow, hhigh⟩ :=
    mantissa_le_roundedMantissa (shiftToTargetExponent Format.binary64 m e a).1
  rw [shiftToTargetExponent_mantissa] at hlow hhigh
  refine ⟨_, hlow, hhigh, ?_⟩
  have ht : -1074 ≤ roundingExponent m e := le_max_right _ _
  have hexponent := shiftToTargetExponent_exponent he a
  have hfits := div_lt_of_droppedBits m e
  unfold roundWithAccuracy
  dsimp only
  rw [hexponent]
  generalize (shiftToTargetExponent Format.binary64 m e a).1.roundedMantissa = r at hlow hhigh ⊢
  unfold ofMantissa
  by_cases hsmall : r < 2 ^ 53
  · rw [shiftToTargetExponent_of_lt hsmall ht]
    by_cases hzero : r = 0
    · rw [dif_pos hzero, dif_pos hzero]
    · rw [dif_neg hzero, dif_neg hzero, if_pos hsmall]
  · obtain rfl : r = 2 ^ 53 := by omega
    rw [shiftToTargetExponent_two_pow ht]
    rfl

/-! ## Packing -/

theorem finite_congr {s : Sign} {m n : Nat} {e f : Int} {hm : 0 < m} {hn : 0 < n} (hmn : m = n)
    (hef : e = f) : UnpackedFloat.finite s m e hm = .finite s n f hn := by
  subst hmn hef
  rfl

/-- The exponent of a normal number is neither the least nor the highest, and the first bit of its mantissa
is not stored. -/
theorem unpack_packComponents_normal (s : Sign) {e : BitVec 11} (hlow : e ≠ 0#11) (hhigh : e ≠ -1#11)
    {m : Nat} (hm : m < 2 ^ 53) (hnormal : 2 ^ 52 ≤ m) :
    UnpackedFloat.unpack Format.binary64
        (packComponents Format.binary64 s e (BitVec.ofNat 52 m)) =
      .finite s m (e.toNat - 1075) (Nat.lt_of_lt_of_le (by decide) hnormal) := by
  unfold UnpackedFloat.unpack
  simp only [unpackMantissa_packComponents, unpackExponent_packComponents, unpackSign_packComponents,
    Sign.ofBitVec_toBitVec]
  rw [if_neg hhigh, if_neg hlow]
  refine finite_congr ?_ ?_
  · rw [BitVec.toNat_append, ← Nat.shiftLeft_add_eq_or_of_lt (BitVec.isLt _), BitVec.toNat_ofNat]
    show 1 <<< 52 + m % 2 ^ 52 = m
    omega
  · rfl

/-- A number below the least normal one has the least exponent, and all its bits are stored. -/
theorem unpack_packComponents_subnormal (s : Sign) {m : Nat} (hpos : 0 < m) (hm : m < 2 ^ 52) :
    UnpackedFloat.unpack Format.binary64
        (packComponents Format.binary64 s 0#11 (BitVec.ofNat 52 m)) =
      .finite s m (-1074) hpos := by
  have hstored : (BitVec.ofNat 52 m).toNat = m := by
    rw [BitVec.toNat_ofNat, Nat.mod_eq_of_lt hm]
  have hne : BitVec.ofNat 52 m ≠ 0#52 := by
    intro heq
    rw [heq] at hstored
    exact hpos.ne hstored
  unfold UnpackedFloat.unpack
  simp only [unpackMantissa_packComponents, unpackExponent_packComponents, unpackSign_packComponents,
    Sign.ofBitVec_toBitVec]
  rw [if_neg (by decide), if_pos trivial, dif_neg hne]
  exact finite_congr hstored rfl

/-- **A number that fits is packed without loss.** -/
theorem unpack_pack_finite {s : Sign} {m : Nat} {e : Int} {hm : 0 < m} (hsize : m < 2 ^ 53)
    (hlow : -1074 ≤ e) (hhigh : e ≤ 971) (hnormal : 2 ^ 52 ≤ m ∨ e = -1074) :
    UnpackedFloat.unpack Format.binary64 (UnpackedFloat.pack Format.binary64 (.finite s m e hm)) =
      .finite s m e hm := by
  have hbias : ((Format.binary64.exponentBias : Nat) : Int) = 1023 := rfl
  unfold UnpackedFloat.pack
  dsimp only
  generalize hbiased : (e + Format.binary64.exponentBias + (52 : Nat)).toNat = biased
  have hbound : ¬ 2 ^ 11 ≤ biased + 1 := by omega
  rw [if_neg hbound]
  by_cases hbits : 2 ^ 52 ≤ m
  · have hlog : m.log2 + 1 = Format.binary64.mantissaBits :=
      congrArg (· + 1) ((Nat.log2_eq_iff hm.ne').mpr ⟨hbits, hsize⟩)
    have hstored : (BitVec.ofNat 11 biased).toNat = biased := by
      rw [BitVec.toNat_ofNat]
      omega
    have hzero : BitVec.ofNat 11 biased ≠ 0#11 := by
      intro heq
      rw [heq] at hstored
      change 0 = biased at hstored
      omega
    rw [if_pos hlog]
    refine (unpack_packComponents_normal s hzero (ofNat_ne_neg_one (by omega)) hsize hbits).trans
      (finite_congr rfl ?_)
    rw [hstored]
    omega
  · obtain rfl : e = -1074 := hnormal.resolve_left hbits
    have hlog : m.log2 < 52 := (Nat.log2_lt hm.ne').mpr (Nat.lt_of_not_le hbits)
    have hne : ¬ m.log2 + 1 = Format.binary64.mantissaBits := by
      show ¬ m.log2 + 1 = 53
      omega
    rw [if_neg hne]
    exact unpack_packComponents_subnormal s hm (Nat.lt_of_not_le hbits)

theorem unpack_pack_ofMantissa {s : Sign} {r : Nat} {t : Int} (hr : r ≤ 2 ^ 53) (hlow : -1074 ≤ t)
    (hhigh : t ≤ 970 ∨ t = 971 ∧ r < 2 ^ 53) (hnormal : 2 ^ 52 ≤ r ∨ t = -1074) :
    UnpackedFloat.unpack Format.binary64 (UnpackedFloat.pack Format.binary64 (ofMantissa s r t)) =
      ofMantissa s r t := by
  unfold ofMantissa
  by_cases hzero : r = 0
  · rw [dif_pos hzero]
    exact unpack_packedZero
  rw [dif_neg hzero]
  by_cases hsmall : r < 2 ^ 53
  · rw [if_pos hsmall]
    exact unpack_pack_finite hsmall hlow (by omega) hnormal
  · rw [if_neg hsmall]
    exact unpack_pack_finite (by decide) (by omega) (by omega) (.inl (le_refl _))

/-! ## Values -/

/-- The value of a number without its sign, if it is finite. -/
def magnitude? : UnpackedFloat → Option ℚ
  | .zero _ => some 0
  | .finite _ m e _ => some ((m : ℚ) * 2 ^ e)
  | .infinity _ => none
  | .notANumber => none

/-- The largest float. -/
def largest : ℚ := (2 ^ 53 - 1) * 2 ^ (971 : ℤ)

/-- How far a value can be from the float to which it is rounded: by one bit of its last place, or by the least
float. -/
def roundingError (v : ℚ) : ℚ := v / 2 ^ 52 + 2 ^ (-1074 : ℤ)

theorem magnitude?_ofMantissa {s : Sign} {r : Nat} (hr : r ≤ 2 ^ 53) (t : Int) :
    magnitude? (ofMantissa s r t) = some ((r : ℚ) * 2 ^ t) := by
  unfold ofMantissa
  by_cases hzero : r = 0
  · rw [dif_pos hzero, hzero]
    simp [magnitude?]
  rw [dif_neg hzero]
  by_cases hsmall : r < 2 ^ 53
  · rw [if_pos hsmall]
    rfl
  · obtain rfl : r = 2 ^ 53 := by omega
    have hcarry : ((2 ^ 52 : Nat) : ℚ) * 2 ^ (t + 1) = ((2 ^ 53 : Nat) : ℚ) * 2 ^ t := by
      rw [zpow_add_one₀ (by norm_num)]
      push_cast
      ring
    rw [if_neg hsmall, ← hcarry]
    rfl

/-- The bits that are kept are worth no more than the number, and one more bit makes up for the others. -/
theorem div_mul_le (m k : Nat) (e : Int) :
    ((m / 2 ^ k : Nat) : ℚ) * 2 ^ (e + k) ≤ m * 2 ^ e ∧
      m * 2 ^ e ≤ (((m / 2 ^ k : Nat) : ℚ) + 1) * 2 ^ (e + k) := by
  have hpos : (0 : ℚ) ≤ 2 ^ e := by positivity
  have hlow : ((m / 2 ^ k : Nat) : ℚ) * 2 ^ k ≤ m := by
    exact_mod_cast Nat.div_mul_le_self m (2 ^ k)
  have hhigh : (m : ℚ) ≤ (((m / 2 ^ k : Nat) : ℚ) + 1) * 2 ^ k := by
    have hnext := (Nat.lt_mul_div_succ m (Nat.two_pow_pos k)).le
    rw [Nat.mul_comm] at hnext
    exact_mod_cast hnext
  rw [zpow_add₀ (by norm_num), zpow_natCast]
  constructor
  · calc ((m / 2 ^ k : Nat) : ℚ) * (2 ^ e * 2 ^ k) = (((m / 2 ^ k : Nat) : ℚ) * 2 ^ k) * 2 ^ e := by ring
      _ ≤ m * 2 ^ e := mul_le_mul_of_nonneg_right hlow hpos
  · calc (m : ℚ) * 2 ^ e ≤ ((((m / 2 ^ k : Nat) : ℚ) + 1) * 2 ^ k) * 2 ^ e :=
          mul_le_mul_of_nonneg_right hhigh hpos
      _ = (((m / 2 ^ k : Nat) : ℚ) + 1) * (2 ^ e * 2 ^ k) := by ring

/-- The weight of the last bit that is kept. -/
theorem two_zpow_roundingExponent_le {m : Nat} {e : Int} (he : e ≤ roundingExponent m e) :
    (2 : ℚ) ^ roundingExponent m e ≤ roundingError (m * 2 ^ e) := by
  have hvalue : (0 : ℚ) ≤ m * 2 ^ e := by positivity
  unfold roundingError
  by_cases hleast : roundingExponent m e = -1074
  · rw [hleast]
    have hpart : (0 : ℚ) ≤ m * 2 ^ e / 2 ^ 52 := by positivity
    linarith
  · have hkept := le_div_of_droppedBits he hleast
    have hshift : roundingExponent m e = e + droppedBits m e := by
      unfold droppedBits
      omega
    have hbits : ((2 : ℚ) ^ 52) ≤ ((m / 2 ^ droppedBits m e : Nat) : ℚ) := by exact_mod_cast hkept
    have hle := (div_mul_le m (droppedBits m e) e).1
    rw [← hshift] at hle
    have hmul : (2 : ℚ) ^ 52 * 2 ^ roundingExponent m e ≤ m * 2 ^ e :=
      le_trans (mul_le_mul_of_nonneg_right hbits (by positivity)) hle
    have hleastpos : (0 : ℚ) < 2 ^ (-1074 : ℤ) := by positivity
    have hquotient : (2 : ℚ) ^ roundingExponent m e ≤ m * 2 ^ e / 2 ^ 52 := by
      rw [le_div_iff₀ (by positivity), mul_comm]
      exact hmul
    linarith

/-- A value below the largest float is not rounded to infinity. -/
theorem roundingExponent_le {m : Nat} {e : Int} (he : e ≤ roundingExponent m e)
    (hlt : (m : ℚ) * 2 ^ e < largest) :
    roundingExponent m e ≤ 970 ∨
      roundingExponent m e = 971 ∧ m / 2 ^ droppedBits m e + 1 < 2 ^ 53 := by
  have hkept (hleast : roundingExponent m e ≠ -1074) := le_div_of_droppedBits he hleast
  have hle := (div_mul_le m (droppedBits m e) e).1
  have hshift : e + droppedBits m e = roundingExponent m e := by
    unfold droppedBits
    omega
  rw [hshift] at hle
  have hbelow := lt_of_le_of_lt hle hlt
  unfold largest at hbelow
  by_contra hnot
  rcases lt_or_ge (roundingExponent m e) 972 with hsmall | hlarge
  · -- at the highest exponent the kept bits are below those of the largest float
    have heq : roundingExponent m e = 971 := by omega
    rw [heq] at hbelow
    have hbits : ((m / 2 ^ droppedBits m e : Nat) : ℚ) < 2 ^ 53 - 1 :=
      lt_of_mul_lt_mul_right hbelow (by positivity)
    have hroom := lt_sub_iff_add_lt.mp hbits
    exact hnot (.inr ⟨heq, by exact_mod_cast hroom⟩)
  · have hbits : ((2 : ℚ) ^ 52) ≤ ((m / 2 ^ droppedBits m e : Nat) : ℚ) := by
      exact_mod_cast hkept (by omega)
    have hweight : (2 : ℚ) ^ (972 : ℤ) ≤ 2 ^ roundingExponent m e :=
      zpow_le_zpow_right₀ (by norm_num) hlarge
    have hmul : (2 : ℚ) ^ 52 * 2 ^ (972 : ℤ) ≤
        ((m / 2 ^ droppedBits m e : Nat) : ℚ) * 2 ^ roundingExponent m e :=
      mul_le_mul hbits hweight (by positivity) (by positivity)
    have hmax : (2 ^ 53 - 1 : ℚ) * 2 ^ (971 : ℤ) < 2 ^ 52 * 2 ^ (972 : ℤ) := by
      calc (2 ^ 53 - 1 : ℚ) * 2 ^ (971 : ℤ) < 2 ^ 53 * 2 ^ (971 : ℤ) :=
            mul_lt_mul_of_pos_right (by norm_num) (by positivity)
        _ = 2 ^ 52 * (2 ^ (971 : ℤ) * 2) := by ring
        _ = 2 ^ 52 * 2 ^ (972 : ℤ) := by rw [← zpow_add_one₀ (by norm_num)]; rfl
    exact lt_asymm hbelow (lt_of_lt_of_le hmax hmul)

/-- **Rounding changes a value by no more than its rounding error.** -/
theorem exists_magnitude?_round {m : Nat} {e : Int} (he : e ≤ roundingExponent m e)
    (hlt : (m : ℚ) * 2 ^ e < largest) (s : Sign) (a : Accuracy) :
    ∃ q, magnitude? (UnpackedFloat.unpack Format.binary64
        (UnpackedFloat.pack Format.binary64 (roundWithAccuracy Format.binary64 s m e a))) = some q ∧
      q ≤ m * 2 ^ e + roundingError (m * 2 ^ e) ∧ m * 2 ^ e ≤ q + roundingError (m * 2 ^ e) := by
  obtain ⟨r, hlow, hhigh, hround⟩ := exists_rounded he s a
  have hfits := div_lt_of_droppedBits m e
  have hr : r ≤ 2 ^ 53 := by omega
  have hleast : -1074 ≤ roundingExponent m e := le_max_right _ _
  have hnormal : 2 ^ 52 ≤ r ∨ roundingExponent m e = -1074 := by
    by_cases h : roundingExponent m e = -1074
    · exact .inr h
    · exact .inl (le_trans (le_div_of_droppedBits he h) hlow)
  have hrange : roundingExponent m e ≤ 970 ∨ roundingExponent m e = 971 ∧ r < 2 ^ 53 := by
    rcases roundingExponent_le he hlt with h | ⟨h, hroom⟩
    · exact .inl h
    · exact .inr ⟨h, by omega⟩
  rw [hround, unpack_pack_ofMantissa hr hleast hrange hnormal, magnitude?_ofMantissa hr]
  have hulp := two_zpow_roundingExponent_le he
  obtain ⟨hbelow, habove⟩ := div_mul_le m (droppedBits m e) e
  have hshift : e + droppedBits m e = roundingExponent m e := by
    unfold droppedBits
    omega
  rw [hshift] at hbelow habove
  have hpos : (0 : ℚ) ≤ 2 ^ roundingExponent m e := by positivity
  have hlow' : ((m / 2 ^ droppedBits m e : Nat) : ℚ) ≤ r := by exact_mod_cast hlow
  have hhigh' : (r : ℚ) ≤ ((m / 2 ^ droppedBits m e : Nat) : ℚ) + 1 := by exact_mod_cast hhigh
  have hlow'' := mul_le_mul_of_nonneg_right hlow' hpos
  have hhigh'' := mul_le_mul_of_nonneg_right hhigh' hpos
  rw [add_mul, one_mul] at hhigh'' habove
  exact ⟨_, rfl, by linarith, by linarith⟩

end PacketTrace

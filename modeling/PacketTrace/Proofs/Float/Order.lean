import PacketTrace.Proofs.Decimal.Binary
import PacketTrace.Proofs.Float.Sign
import PacketTrace.Report.Session

/-!
# `Proofs.Float.Order` — the later of two times

Floats are compared by sign, then by exponent, then by mantissa. That is the order of triples, except that
what is not a number has no place in it: `rank?` gives the triple and `lt_iff_rank` says so. On numbers
the comparison is therefore linear, and the latest of many times can be found in any grouping
(`laterTime_assoc`) and in any order (`foldl_laterTime_perm`), as long as none of them is something else
than a number.

## Contents
- **Ranks.** `rank?`, `compare_eq_rank` and `lt_iff_rank`; times of one rank are the same
  (`Unsigned.eq_of_rank`).
- **Order.** On numbers without a minus sign `≤` is a linear order with zero at its bottom; what is above zero is
  such a number.
- **Later times.** `laterTime` on numbers: it is associative, zero does not matter, and nor does the order
  in which two times are taken in.
- **The latest time.** It is one of the times and not below any; `foldl_laterTime` splits the search for it.
-/

namespace PacketTrace

open Float.Model
open Float.Model.UnpackedFloat

/-! ## Ranks -/

/-- The place of a number among all numbers: by its class, then by exponent and mantissa. -/
def rank? : UnpackedFloat → Option (ℤ ×ₗ ℤ ×ₗ ℤ)
  | .notANumber => none
  | .infinity .negative => some (toLex (-2, toLex (0, 0)))
  | .finite .negative m e _ => some (toLex (-1, toLex (-e, -m)))
  | .zero _ => some (toLex (0, toLex (0, 0)))
  | .finite .positive m e _ => some (toLex (1, toLex (e, m)))
  | .infinity .positive => some (toLex (2, toLex (0, 0)))

theorem compare_neg_neg (a b : ℤ) : compare (-a) (-b) = (compare a b).swap := by
  rw [Int.compare_swap]
  simp only [compare, compareOfLessAndEq, neg_lt_neg_iff, neg_inj, eq_comm]

theorem compare_natCast (m n : ℕ) : compare (m : ℤ) n = compare m n := by
  simp [compare, compareOfLessAndEq]

/-- **Numbers are compared by their ranks.** What is no number is not compared at all. -/
theorem compare_eq_rank (u v : UnpackedFloat) :
    u.compare v = (rank? u).bind fun x => (rank? v).map fun y => compare x y := by
  rcases u with (_ | _) | _ | _ | ⟨_ | _, m, e, hm⟩ <;>
    rcases v with (_ | _) | _ | _ | ⟨_ | _, n, f, hn⟩ <;>
    try rfl
  -- two finite numbers of one sign are left: the exponents decide, and then the mantissas
  case finite.negative.finite.negative =>
    simp [UnpackedFloat.compare, rank?, Prod.Lex.compare_def, compareLex, compareOn, compare_neg_neg,
      compare_natCast, Ordering.swap_then]
  case finite.positive.finite.positive =>
    simp [UnpackedFloat.compare, rank?, Prod.Lex.compare_def, compareLex, compareOn, compare_natCast]

/-- **Comparison is the order of ranks.** -/
theorem lt_iff_rank {a b : Float} :
    a < b ↔ ∃ x y, rank? a.toModel.unpack = some x ∧ rank? b.toModel.unpack = some y ∧ x < y := by
  have hmodel : a < b ↔ a.toModel.unpack.compare b.toModel.unpack = some .lt := by
    have hlt : a < b ↔ a.toModel.unpack.lt b.toModel.unpack = true := decide_eq_true_iff
    rw [hlt, UnpackedFloat.lt, beq_iff_eq]
  rw [hmodel, compare_eq_rank]
  constructor
  · intro h
    obtain ⟨x, hx, h⟩ := Option.bind_eq_some_iff.mp h
    obtain ⟨y, hy, h⟩ := Option.map_eq_some_iff.mp h
    exact ⟨x, y, hx, hy, compare_lt_iff_lt.mp h⟩
  · rintro ⟨x, y, hx, hy, h⟩
    rw [hx, hy, Option.bind_some, Option.map_some, compare_lt_iff_lt.mpr h]

/-- A number has a rank, and without a minus sign it is not below that of zero. -/
theorem IsUnsigned.rank {u : UnpackedFloat} (h : IsUnsigned u) :
    ∃ x, rank? u = some x ∧ toLex (0, toLex (0, 0)) ≤ x := by
  rcases u with (_ | _) | _ | (_ | _) | ⟨_ | _, m, e, hm⟩
  case infinity.positive => exact ⟨_, rfl, by decide⟩
  case zero.positive => exact ⟨_, rfl, le_refl _⟩
  case finite.positive =>
    refine ⟨_, rfl, ?_⟩
    simp [Prod.Lex.toLex_le_toLex]
  all_goals exact h.elim

/-- Between numbers, the comparison is that of two elements of a linear order. -/
theorem lt_iff_of_rank {a b : Float} {x y : ℤ ×ₗ ℤ ×ₗ ℤ} (ha : rank? a.toModel.unpack = some x)
    (hb : rank? b.toModel.unpack = some y) : a < b ↔ x < y := by
  rw [lt_iff_rank, ha, hb]
  simp

theorem le_iff_of_rank {a b : Float} {x y : ℤ ×ₗ ℤ ×ₗ ℤ} (ha : rank? a.toModel.unpack = some x)
    (hb : rank? b.toModel.unpack = some y) : a ≤ b ↔ x ≤ y := by
  have hmodel : a ≤ b ↔ a.toModel.unpack.le b.toModel.unpack = true := decide_eq_true_iff
  have hranks : (compare x y).isLE = true ↔ x ≤ y := by
    rw [← compare_le_iff_le]
    exact Ordering.ne_gt_iff_isLE.symm
  rw [hmodel, UnpackedFloat.le, compare_eq_rank, ha, hb]
  exact hranks

theorem rank?_zero : rank? (0.0 : Float).toModel.unpack = some (toLex (0, toLex (0, 0))) := by
  decide +kernel

/-- Numbers of one rank are the same if neither has a minus sign. -/
theorem IsUnsigned.eq_of_rank {u v : UnpackedFloat} (hu : IsUnsigned u) (hv : IsUnsigned v)
    (h : rank? u = rank? v) : u = v := by
  rcases u with (_ | _) | _ | (_ | _) | ⟨_ | _, m, e, hm⟩ <;>
    rcases v with (_ | _) | _ | (_ | _) | ⟨_ | _, n, f, hn⟩ <;>
    simp_all [IsUnsigned, rank?]

/-- **Two times of one rank are the same time.** -/
theorem Unsigned.eq_of_rank {a b : Float} (ha : Unsigned a) (hb : Unsigned b)
    (h : rank? a.toModel.unpack = rank? b.toModel.unpack) : a = b := by
  have hunpacked : a.toModel.unpack = b.toModel.unpack := IsUnsigned.eq_of_rank ha hb h
  have hnumber : Binary.ofUnpacked a.toModel.unpack ≠ .notANumber := by
    intro hnot
    unfold Unsigned at ha
    cases hu : a.toModel.unpack with
    | notANumber =>
      rw [hu] at ha
      exact ha
    | _ =>
      rw [hu] at hnot
      cases hnot
  apply Binary.eq_of_ofFloat_eq
  · rw [Binary.ofFloat_eq, Binary.ofFloat_eq, hunpacked]
  · rw [Binary.ofFloat_eq]
    exact hnumber

/-! ## Order -/

theorem time_lt_asymm {a b : Float} (h : a < b) : ¬ b < a := by
  intro hback
  obtain ⟨x, y, hx, hy, hlt⟩ := lt_iff_rank.mp h
  exact lt_asymm hlt ((lt_iff_of_rank hy hx).mp hback)

theorem time_lt_trans {a b c : Float} (hab : a < b) (hbc : b < c) : a < c := by
  obtain ⟨x, y, hx, hy, hxy⟩ := lt_iff_rank.mp hab
  obtain ⟨y', z, hy', hz, hyz⟩ := lt_iff_rank.mp hbc
  cases hy.symm.trans hy'
  exact lt_iff_rank.mpr ⟨x, z, hx, hz, lt_trans hxy hyz⟩

/-- Of two times one is later, or they are the same. -/
theorem Unsigned.lt_or_eq_or_gt {a b : Float} (ha : Unsigned a) (hb : Unsigned b) :
    a < b ∨ a = b ∨ b < a := by
  obtain ⟨x, hx, -⟩ := IsUnsigned.rank ha
  obtain ⟨y, hy, -⟩ := IsUnsigned.rank hb
  rw [lt_iff_of_rank hx hy, lt_iff_of_rank hy hx]
  rcases lt_trichotomy x y with hlt | heq | hgt
  · exact .inl hlt
  · exact .inr (.inl (ha.eq_of_rank hb (by rw [hx, hy, heq])))
  · exact .inr (.inr hgt)

/-- **What is above zero has no minus sign** and is a number, whatever it was computed from. -/
theorem isPositive_of_zero_lt {a : Float} (h : 0.0 < a) : IsPositive a.toModel.unpack := by
  obtain ⟨x, y, hx, hy, hlt⟩ := lt_iff_rank.mp h
  cases rank?_zero.symm.trans hx
  rcases hu : a.toModel.unpack with (_ | _) | _ | _ | ⟨_ | _, m, e, hm⟩
  case infinity.positive => trivial
  case finite.positive => trivial
  all_goals
    rw [hu] at hy
    cases hy
  -- the others have no rank above that of zero
  all_goals simp [Prod.Lex.toLex_lt_toLex] at hlt

/-- A number without a minus sign is not below zero. -/
theorem Unsigned.zero_le {a : Float} (ha : Unsigned a) : 0.0 ≤ a := by
  obtain ⟨x, hx, hzero⟩ := IsUnsigned.rank ha
  exact (le_iff_of_rank rank?_zero hx).mpr hzero

theorem Unsigned.isNaN_eq_false {a : Float} (ha : Unsigned a) : a.isNaN = false := by
  show a.toModel.unpack.isNaN = false
  unfold Unsigned at ha
  cases hu : a.toModel.unpack with
  | notANumber =>
    rw [hu] at ha
    exact ha.elim
  | _ => rfl

theorem Unsigned.le_iff_not_lt {a b : Float} (ha : Unsigned a) (hb : Unsigned b) : a ≤ b ↔ ¬ b < a := by
  obtain ⟨x, hx, -⟩ := IsUnsigned.rank ha
  obtain ⟨y, hy, -⟩ := IsUnsigned.rank hb
  rw [le_iff_of_rank hx hy, lt_iff_of_rank hy hx, not_lt]

theorem Unsigned.le_refl {a : Float} (ha : Unsigned a) : a ≤ a :=
  (ha.le_iff_not_lt ha).mpr fun h => time_lt_asymm h h

theorem Unsigned.le_trans {a b c : Float} (ha : Unsigned a) (hb : Unsigned b) (hc : Unsigned c)
    (hab : a ≤ b) (hbc : b ≤ c) : a ≤ c := by
  obtain ⟨x, hx, -⟩ := IsUnsigned.rank ha
  obtain ⟨y, hy, -⟩ := IsUnsigned.rank hb
  obtain ⟨z, hz, -⟩ := IsUnsigned.rank hc
  rw [le_iff_of_rank hx hy] at hab
  rw [le_iff_of_rank hy hz] at hbc
  exact (le_iff_of_rank hx hz).mpr (hab.trans hbc)

/-! ## Later times -/

theorem unsigned_zero : Unsigned 0.0 := unsigned_ofScientific _ _ _

theorem Unsigned.laterTime {a b : Float} (ha : Unsigned a) (hb : Unsigned b) :
    Unsigned (laterTime a b) := by
  unfold PacketTrace.laterTime
  split
  · exact hb
  · exact ha

/-- The later of two times is one of them. -/
theorem laterTime_eq_or (a b : Float) : laterTime a b = a ∨ laterTime a b = b := by
  unfold laterTime
  split
  · exact .inr rfl
  · exact .inl rfl

/-- The later of two times is not below either. -/
theorem Unsigned.le_laterTime {a b : Float} (ha : Unsigned a) (hb : Unsigned b) :
    a ≤ PacketTrace.laterTime a b ∧ b ≤ PacketTrace.laterTime a b := by
  unfold PacketTrace.laterTime
  split
  · rename_i hlt
    exact ⟨(ha.le_iff_not_lt hb).mpr (time_lt_asymm hlt), hb.le_refl⟩
  · rename_i hnot
    exact ⟨ha.le_refl, (hb.le_iff_not_lt ha).mpr hnot⟩

/-- Zero is not later than any time. -/
theorem laterTime_zero {a : Float} (ha : Unsigned a) : laterTime a 0.0 = a := by
  obtain ⟨x, hx, hzero⟩ := IsUnsigned.rank ha
  have hnot : ¬ a < 0.0 := by
    rw [lt_iff_of_rank hx rank?_zero]
    exact not_lt_of_ge hzero
  exact if_neg hnot

/-- **Among numbers the grouping does not matter.** -/
theorem laterTime_assoc {a b c : Float} (ha : Unsigned a) (hb : Unsigned b) (hc : Unsigned c) :
    laterTime (laterTime a b) c = laterTime a (laterTime b c) := by
  obtain ⟨x, hx, -⟩ := IsUnsigned.rank ha
  obtain ⟨y, hy, -⟩ := IsUnsigned.rank hb
  obtain ⟨z, hz, -⟩ := IsUnsigned.rank hc
  have hab := lt_iff_of_rank hx hy
  have hbc := lt_iff_of_rank hy hz
  have hac := lt_iff_of_rank hx hz
  unfold laterTime
  by_cases h₁ : a < b
  · by_cases h₂ : b < c
    · have h₃ : a < c := hac.mpr (lt_trans (hab.mp h₁) (hbc.mp h₂))
      simp only [h₁, h₂, h₃, if_true]
    · simp only [h₁, h₂, if_true, if_false]
  · by_cases h₂ : b < c
    · simp only [h₁, h₂, if_true, if_false]
    · have h₃ : ¬ a < c := by
        rw [hac]
        exact not_lt_of_ge (le_trans (not_lt.mp (mt hbc.mpr h₂)) (not_lt.mp (mt hab.mpr h₁)))
      simp only [h₁, h₂, h₃, if_false]

/-- Every time is at least as late as zero. -/
theorem zero_laterTime {a : Float} (ha : Unsigned a) : laterTime 0.0 a = a := by
  rcases unsigned_zero.lt_or_eq_or_gt ha with hlt | heq | hgt
  · exact if_pos hlt
  · rw [← heq]
    exact laterTime_zero unsigned_zero
  · exact absurd hgt ((unsigned_zero.le_iff_not_lt ha).mp ha.zero_le)

theorem laterTime_of_lt {a b : Float} (h : a < b) : laterTime a b = b := if_pos h

theorem laterTime_of_not_lt {a b : Float} (h : ¬ a < b) : laterTime a b = a := if_neg h

theorem laterTime_right_comm_of_lt {a b c : Float} (h : b < c) :
    laterTime (laterTime a b) c = laterTime (laterTime a c) b := by
  have hback : ¬ c < b := time_lt_asymm h
  by_cases hab : a < b
  · have hac : a < c := time_lt_trans hab h
    rw [laterTime_of_lt hab, laterTime_of_lt h, laterTime_of_lt hac, laterTime_of_not_lt hback]
  · rw [laterTime_of_not_lt hab]
    by_cases hac : a < c
    · rw [laterTime_of_lt hac, laterTime_of_not_lt hback]
    · rw [laterTime_of_not_lt hac, laterTime_of_not_lt hab]

/-- **The order in which two times are taken in does not matter**, whatever they are compared with. -/
theorem laterTime_right_comm {a b c : Float} (hb : Unsigned b) (hc : Unsigned c) :
    laterTime (laterTime a b) c = laterTime (laterTime a c) b := by
  rcases hb.lt_or_eq_or_gt hc with hlt | rfl | hgt
  · exact laterTime_right_comm_of_lt hlt
  · rfl
  · exact (laterTime_right_comm_of_lt hgt).symm

/-! ## The latest time -/

theorem Unsigned.foldl_laterTime {a : Float} (ha : Unsigned a) {times : List Float}
    (h : ∀ t ∈ times, Unsigned t) : Unsigned (times.foldl PacketTrace.laterTime a) := by
  induction times generalizing a with
  | nil => exact ha
  | cons t times ih =>
    rw [List.foldl_cons]
    apply ih
    · exact ha.laterTime (h t List.mem_cons_self)
    · exact fun u hu => h u (List.mem_cons_of_mem t hu)

/-- What is found is one of the times that were compared. -/
theorem foldl_laterTime_mem (a : Float) (times : List Float) : times.foldl laterTime a ∈ a :: times := by
  induction times generalizing a with
  | nil => exact List.mem_singleton_self a
  | cons t times ih =>
    rw [List.foldl_cons]
    rcases List.mem_cons.mp (ih (laterTime a t)) with hfirst | hlater
    · rcases laterTime_eq_or a t with ha | ht
      · rw [hfirst, ha]
        exact List.mem_cons_self
      · rw [hfirst, ht]
        exact List.mem_cons_of_mem a List.mem_cons_self
    · exact List.mem_cons_of_mem a (List.mem_cons_of_mem t hlater)

/-- **What is found is not below any time that was compared.** -/
theorem Unsigned.le_foldl_laterTime {a : Float} (ha : Unsigned a) {times : List Float}
    (h : ∀ t ∈ times, Unsigned t) :
    ∀ t ∈ a :: times, t ≤ times.foldl PacketTrace.laterTime a := by
  induction times generalizing a with
  | nil =>
    intro t ht
    rw [List.mem_singleton.mp ht]
    exact ha.le_refl
  | cons u times ih =>
    rw [List.forall_mem_cons] at h
    have hstep := ha.laterTime h.1
    have hfound := ih hstep h.2
    obtain ⟨hleft, hright⟩ := ha.le_laterTime h.1
    have hlater : PacketTrace.laterTime a u ≤ times.foldl PacketTrace.laterTime (PacketTrace.laterTime a u) :=
      hfound _ List.mem_cons_self
    have hunsigned := hstep.foldl_laterTime h.2
    rw [List.foldl_cons, List.forall_mem_cons, List.forall_mem_cons]
    exact ⟨ha.le_trans hstep hunsigned hleft hlater, h.1.le_trans hstep hunsigned hright hlater,
      fun t ht => hfound t (List.mem_cons_of_mem _ ht)⟩

/-- **Where the search starts makes no difference to what it finds.** The latest of a time and many
    others is the later of that time and the latest of the others. -/
theorem foldl_laterTime {a : Float} (ha : Unsigned a) {times : List Float}
    (h : ∀ t ∈ times, Unsigned t) :
    times.foldl laterTime a = laterTime a (times.foldl laterTime 0.0) := by
  induction times generalizing a with
  | nil => exact (laterTime_zero ha).symm
  | cons t times ih =>
    have ht : Unsigned t := h t List.mem_cons_self
    have hrest : ∀ u ∈ times, Unsigned u := fun u hu => h u (List.mem_cons_of_mem t hu)
    have hlatest : Unsigned (times.foldl laterTime 0.0) := unsigned_zero.foldl_laterTime hrest
    rw [List.foldl_cons, List.foldl_cons, ih (ha.laterTime ht) hrest,
      ih (unsigned_zero.laterTime ht) hrest, ← laterTime_assoc ha (unsigned_zero.laterTime ht) hlatest,
      ← laterTime_assoc ha unsigned_zero ht, laterTime_zero ha]

/-- **The latest of some times does not depend on their order.** -/
theorem foldl_laterTime_perm {xs ys : List Float} (h : xs.Perm ys) (hxs : ∀ t ∈ xs, Unsigned t)
    (a : Float) : xs.foldl laterTime a = ys.foldl laterTime a :=
  h.foldl_eq' (fun _ hx _ hy _ => laterTime_right_comm (hxs _ hx) (hxs _ hy)) a

end PacketTrace

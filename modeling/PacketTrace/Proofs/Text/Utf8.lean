import Mathlib.Data.List.Induction
import PacketTrace.Text.Utf8

/-!
# `Proofs.Text.Utf8` — decoding and line feeds

A line feed is one byte, it begins no longer sequence and it continues none. So the decoder stands between
two characters after every line feed, whatever came before (`feed_lineFeed`), and no other byte can give
one (`lineFeed_not_mem_pieces`). Decoding therefore commutes with cutting at line feeds
(`decodeLossy_append_lineFeed`), for malformed bytes as well.

The second fact rests on the bounds that the decoder keeps for the next byte: they leave no way to write a
small number in a long sequence. `Pending.Proper` is what they guarantee.

## Contents
- **States.** `Pending.Proper` and `Decoder.Proper`, and that the decoder keeps them.
- **After a line feed.** `feed_lineFeed` and the split of `pieces`.
- **No other line feed.** `lineFeed_not_mem_decodeLossy`.
-/

namespace PacketTrace
namespace Utf8

/-- The byte of a line feed. -/
abbrev lineFeedByte : UInt8 := 0x0A

/-! ## States -/

/-- The next byte is no ASCII byte, and the sequence will not give the number of an ASCII character. -/
structure Pending.Proper (p : Pending) : Prop where
  low : 0x80 ≤ p.low.toNat
  high : p.high.toNat ≤ 0xBF
  /-- One more byte makes the number at least `2 * 64`. -/
  last : p.due = 1 → 2 ≤ p.bits
  /-- One more byte makes the number at least 2. -/
  more : p.due ≠ 1 → 1 ≤ p.bits ∨ 0x82 ≤ p.low.toNat

/-- A longer sequence is proper if its first byte gives bits or raises the bound of the second. -/
theorem Pending.proper_of_first {b first last low high : UInt8} {due bits : Nat} (hdue : due ≠ 1)
    (hlow : 0x82 ≤ low.toNat) (hhigh : high.toNat ≤ 0xBF) (hbits : b ≠ first → 1 ≤ bits) :
    Proper ⟨due, if b = first then low else 0x80, if b = last then high else 0xBF, bits⟩ where
  low := by
    dsimp only
    split
    · omega
    · decide
  high := by
    dsimp only
    split
    · exact hhigh
    · decide
  last h := absurd h hdue
  more _ := by
    by_cases hfirst : b = first
    · exact .inr (by rw [if_pos hfirst]; exact hlow)
    · exact .inl (hbits hfirst)

/-- **A sequence that a byte opens is proper.** Where the byte itself gives no bits, the bound of the
    second byte makes up for it. -/
theorem Pending.proper_of_lead {b : UInt8} {p : Pending} (h : lead b = .opens p) : p.Proper := by
  unfold lead at h
  -- the ranges of `lead` in order: ASCII, stray, two bytes, three bytes, four bytes, stray
  split at h
  · cases h
  split at h
  · cases h
  rename_i hstray
  split at h
  · rename_i htwo
    cases h
    have hlow : 0xC2 ≤ b.toNat := UInt8.le_iff_toNat_le.mp (UInt8.not_lt.mp hstray)
    have hhigh : b.toNat < 0xE0 := UInt8.lt_iff_toNat_lt.mp htwo
    exact ⟨Nat.le_refl _, Nat.le_refl _, fun _ => by dsimp only; omega, fun h => absurd rfl h⟩
  rename_i htwo
  split at h
  · rename_i hthree
    cases h
    have hlow : 0xE0 ≤ b.toNat := UInt8.le_iff_toNat_le.mp (UInt8.not_lt.mp htwo)
    have hhigh : b.toNat < 0xF0 := UInt8.lt_iff_toNat_lt.mp hthree
    refine Pending.proper_of_first (by decide) (by decide) (by decide) fun hfirst => ?_
    have hne : b.toNat ≠ 0xE0 := fun h => hfirst (UInt8.toNat_inj.mp h)
    omega
  rename_i hthree
  split at h
  · rename_i hfour
    cases h
    have hlow : 0xF0 ≤ b.toNat := UInt8.le_iff_toNat_le.mp (UInt8.not_lt.mp hthree)
    have hhigh : b.toNat < 0xF5 := UInt8.lt_iff_toNat_lt.mp hfour
    refine Pending.proper_of_first (by decide) (by decide) (by decide) fun hfirst => ?_
    have hne : b.toNat ≠ 0xF0 := fun h => hfirst (UInt8.toNat_inj.mp h)
    omega
  · cases h

/-- The number of a line feed. -/
theorem eq_of_ofNat_eq_lineFeed {n : Nat} (h : Char.ofNat n = '\n') : n = 10 := by
  unfold Char.ofNat at h
  by_cases hvalid : n.isValidChar
  · rw [dif_pos hvalid] at h
    exact congrArg Char.toNat h
  · rw [dif_neg hvalid] at h
    exact absurd h (by decide)

/-- A byte other than a line feed is not read as one. -/
theorem lead_ne_lineFeed {b : UInt8} (hb : b ≠ lineFeedByte) : lead b ≠ .whole '\n' := by
  intro h
  unfold lead at h
  by_cases hascii : b < 0x80
  · rw [if_pos hascii] at h
    exact hb (UInt8.toNat_inj.mp (eq_of_ofNat_eq_lineFeed (Lead.whole.inj h)))
  · rw [if_neg hascii] at h
    split at h
    · exact Lead.noConfusion h
    split at h
    · exact Lead.noConfusion h
    split at h
    · exact Lead.noConfusion h
    split at h
    · exact Lead.noConfusion h
    · exact Lead.noConfusion h

namespace Decoder

/-- What is pending is proper. -/
def Proper (d : Decoder) : Prop := ∀ p, d.pending = some p → p.Proper

theorem proper_start (d : Decoder) (b : UInt8) : (d.start b).Proper := by
  intro p hp
  unfold start at hp
  split at hp
  · exact absurd hp (by simp)
  · rename_i q hq
    obtain rfl := Option.some.inj hp
    exact Pending.proper_of_lead hq
  · exact absurd hp (by simp)

/-- The decoder with what is pending given up. -/
def settled (d : Decoder) : Decoder :=
  { read := match d.pending with
      | none => d.read
      | some _ => none :: d.read }

theorem finish_eq (d : Decoder) : d.finish = d.settled.read.reverse := by
  unfold finish settled
  cases d.pending <;> rfl

/-- **What one byte does.** It starts anew, or it is no ASCII byte and completes a character outside ASCII,
    or it is no ASCII byte and leaves a proper sequence pending. -/
theorem feed_cases {d : Decoder} (hd : d.Proper) (b : UInt8) :
    d.feed b = d.settled.start b ∨
    (0x80 ≤ b.toNat ∧ ∃ n, 0x80 ≤ n ∧ d.feed b = { read := some (Char.ofNat n) :: d.read }) ∨
    (0x80 ≤ b.toNat ∧ ∃ p, p.Proper ∧ d.feed b = { read := d.read, pending := some p }) := by
  obtain ⟨read, pending⟩ := d
  cases pending with
  | none => exact .inl rfl
  | some p =>
    have hp : p.Proper := hd p rfl
    unfold feed
    -- within the bounds the byte continues the sequence and is no ASCII byte
    by_cases hbounds : (decide (p.low ≤ b) && decide (b ≤ p.high)) = true
    · have hlow : p.low.toNat ≤ b.toNat :=
        UInt8.le_iff_toNat_le.mp (of_decide_eq_true (Bool.and_eq_true_iff.mp hbounds).1)
      have hhigh : b.toNat ≤ p.high.toNat :=
        UInt8.le_iff_toNat_le.mp (of_decide_eq_true (Bool.and_eq_true_iff.mp hbounds).2)
      have hascii := Nat.le_trans hp.low hlow
      have htop := Nat.le_trans hhigh hp.high
      dsimp only
      rw [if_pos hbounds]
      by_cases hdue : p.due = 1
      · have hbits := hp.last hdue
        exact .inr (.inl ⟨hascii, _, by omega, if_pos hdue⟩)
      · have hbits := hp.more hdue
        refine .inr (.inr ⟨hascii, _, ?_, if_neg hdue⟩)
        exact ⟨Nat.le_refl _, Nat.le_refl _, fun _ => by dsimp only; omega,
          fun _ => .inl (by dsimp only; omega)⟩
    · exact .inl (if_neg hbounds)

theorem Proper.feed {d : Decoder} (hd : d.Proper) (b : UInt8) : (d.feed b).Proper := by
  rcases feed_cases hd b with h | ⟨-, n, -, h⟩ | ⟨-, p, hp, h⟩
  · rw [h]
    exact proper_start _ b
  · rw [h]
    exact fun q hq => absurd hq (by simp)
  · rw [h]
    intro q hq
    obtain rfl := Option.some.inj hq
    exact hp

theorem Proper.foldl {d : Decoder} (hd : d.Proper) (bytes : Bytes) :
    (bytes.foldl Decoder.feed d).Proper := by
  induction bytes generalizing d with
  | nil => exact hd
  | cons b bytes ih => exact ih (hd.feed b)

theorem proper_empty : Proper {} := fun _ hp => absurd hp (by simp)

/-! ## After a line feed -/

/-- **A line feed ends whatever is pending.** -/
theorem feed_lineFeed {d : Decoder} (hd : d.Proper) :
    d.feed lineFeedByte = { read := some '\n' :: d.settled.read } := by
  rcases feed_cases hd lineFeedByte with h | ⟨hascii, -⟩ | ⟨hascii, -⟩
  · rw [h]
    rfl
  · exact absurd hascii (by decide)
  · exact absurd hascii (by decide)

/-- The decoder with other pieces read before its own. -/
def after (before : List (Option Char)) (d : Decoder) : Decoder := { d with read := d.read ++ before }

/-- What was read before makes no difference to what is read next. -/
theorem feed_after (before : List (Option Char)) (d : Decoder) (b : UInt8) :
    (d.after before).feed b = (d.feed b).after before := by
  have hstart : ∀ d : Decoder, (d.after before).start b = (d.start b).after before := by
    intro d
    unfold start
    cases lead b <;> rfl
  obtain ⟨read, pending⟩ := d
  cases pending with
  | none => exact hstart ⟨read, none⟩
  | some p =>
    unfold feed after
    dsimp only
    by_cases hbounds : (decide (p.low ≤ b) && decide (b ≤ p.high)) = true
    · rw [if_pos hbounds, if_pos hbounds]
      by_cases hdue : p.due = 1
      · rw [if_pos hdue, if_pos hdue]
        rfl
      · rw [if_neg hdue, if_neg hdue]
    · rw [if_neg hbounds, if_neg hbounds]
      exact hstart ⟨none :: read, none⟩

theorem foldl_after (before : List (Option Char)) (d : Decoder) (bytes : Bytes) :
    bytes.foldl feed (d.after before) = (bytes.foldl feed d).after before := by
  induction bytes generalizing d with
  | nil => rfl
  | cons b bytes ih => rw [List.foldl_cons, List.foldl_cons, feed_after, ih]

theorem finish_after (before : List (Option Char)) (d : Decoder) :
    (d.after before).finish = before.reverse ++ d.finish := by
  obtain ⟨read, pending⟩ := d
  cases pending with
  | none => exact List.reverse_append
  | some p =>
    show ((none :: read) ++ before).reverse = _
    exact List.reverse_append

end Decoder

/-- **Pieces on either side of a line feed.** They do not depend on each other. -/
theorem pieces_append_lineFeed (bytes rest : Bytes) :
    pieces (bytes ++ lineFeedByte :: rest) = pieces bytes ++ some '\n' :: pieces rest := by
  have hproper : (bytes.foldl Decoder.feed {}).Proper := Decoder.proper_empty.foldl bytes
  unfold pieces
  rw [List.foldl_append, List.foldl_cons, Decoder.feed_lineFeed hproper,
    Decoder.finish_eq (bytes.foldl Decoder.feed {})]
  -- only the pieces read so far are left of the state, and they do not matter for the rest
  generalize (bytes.foldl Decoder.feed {}).settled.read = read
  have hafter : rest.foldl Decoder.feed { read := some '\n' :: read } =
      (rest.foldl Decoder.feed {}).after (some '\n' :: read) :=
    Decoder.foldl_after (some '\n' :: read) {} rest
  rw [hafter, Decoder.finish_after, List.reverse_cons, List.append_assoc]
  rfl

theorem decodeLossy_append_lineFeed (bytes rest : Bytes) :
    decodeLossy (bytes ++ lineFeedByte :: rest) = decodeLossy bytes ++ '\n' :: decodeLossy rest := by
  unfold decodeLossy
  rw [pieces_append_lineFeed, List.map_append]
  rfl

/-! ## No other line feed -/

theorem Decoder.lineFeed_not_mem_start {d : Decoder} (hd : some '\n' ∉ d.read) {b : UInt8}
    (hb : b ≠ lineFeedByte) : some '\n' ∉ (d.start b).read := by
  unfold Decoder.start
  split
  · rename_i c hc
    rw [List.mem_cons, not_or]
    refine ⟨fun h => ?_, hd⟩
    rw [← Option.some.inj h] at hc
    exact lead_ne_lineFeed hb hc
  · exact hd
  · rw [List.mem_cons, not_or]
    exact ⟨fun h => absurd h (by simp), hd⟩

theorem Decoder.lineFeed_not_mem_settled {d : Decoder} (hd : some '\n' ∉ d.read) :
    some '\n' ∉ d.settled.read := by
  obtain ⟨read, pending⟩ := d
  cases pending with
  | none => exact hd
  | some p =>
    intro h
    rcases List.mem_cons.mp h with h | h
    · exact absurd h (by simp)
    · exact hd h

theorem Decoder.lineFeed_not_mem_feed {d : Decoder} (hp : d.Proper) (hd : some '\n' ∉ d.read)
    {b : UInt8} (hb : b ≠ lineFeedByte) : some '\n' ∉ (d.feed b).read := by
  rcases Decoder.feed_cases hp b with h | ⟨-, n, hn, h⟩ | ⟨-, p, -, h⟩
  · rw [h]
    exact Decoder.lineFeed_not_mem_start (Decoder.lineFeed_not_mem_settled hd) hb
  · rw [h, List.mem_cons, not_or]
    refine ⟨fun hchar => ?_, hd⟩
    have hten := eq_of_ofNat_eq_lineFeed (Option.some.inj hchar).symm
    omega
  · rw [h]
    exact hd

/-- **Only a line feed is decoded as one.** -/
theorem lineFeed_not_mem_pieces {bytes : Bytes} (h : lineFeedByte ∉ bytes) :
    some '\n' ∉ pieces bytes := by
  -- over the bytes, for every state that the decoder may be in
  have hfold : ∀ d : Decoder, d.Proper → some '\n' ∉ d.read →
      some '\n' ∉ (bytes.foldl Decoder.feed d).read := by
    induction bytes with
    | nil => exact fun _ _ hd => hd
    | cons b bytes ih =>
      intro d hp hd
      rw [List.mem_cons, not_or] at h
      exact ih h.2 _ (hp.feed b) (Decoder.lineFeed_not_mem_feed hp hd (Ne.symm h.1))
  have hread := hfold {} Decoder.proper_empty (by simp)
  unfold pieces
  rw [Decoder.finish_eq, List.mem_reverse]
  exact Decoder.lineFeed_not_mem_settled hread

theorem lineFeed_not_mem_decodeLossy {bytes : Bytes} (h : lineFeedByte ∉ bytes) :
    '\n' ∉ decodeLossy bytes := by
  intro hmem
  obtain ⟨piece, hpiece, hchar⟩ := List.mem_map.mp hmem
  cases piece with
  | none => exact absurd hchar (by decide)
  | some c =>
    obtain rfl : c = '\n' := hchar
    exact lineFeed_not_mem_pieces h hpiece

theorem Decoder.settled_start_ne_nil (d : Decoder) (b : UInt8) : (d.start b).settled.read ≠ [] := by
  unfold Decoder.start Decoder.settled
  cases lead b <;> simp

/-- A byte that was read leaves its trace. -/
theorem Decoder.settled_feed_ne_nil (d : Decoder) (b : UInt8) : (d.feed b).settled.read ≠ [] := by
  obtain ⟨read, pending⟩ := d
  unfold Decoder.feed
  cases pending with
  | none => exact Decoder.settled_start_ne_nil _ b
  | some p =>
    dsimp only
    split
    · split
      · exact List.cons_ne_nil _ _
      · exact List.cons_ne_nil _ _
    · exact Decoder.settled_start_ne_nil _ b

/-- Bytes are never decoded as no text at all. -/
theorem decodeLossy_eq_nil_iff {bytes : Bytes} : decodeLossy bytes = [] ↔ bytes = [] := by
  constructor
  · intro h
    induction bytes using List.reverseRecOn with
    | nil => rfl
    | append_singleton bytes b =>
      unfold decodeLossy pieces at h
      rw [List.foldl_append, List.foldl_cons, List.foldl_nil, List.map_eq_nil_iff, Decoder.finish_eq,
        List.reverse_eq_nil_iff] at h
      exact absurd h (Decoder.settled_feed_ne_nil _ b)
  · rintro rfl
    rfl

end Utf8
end PacketTrace

import PacketTrace.Proofs.Text.Utf8
import PacketTrace.Text.Utf8

/-!
# `Proofs.Text.Encoding` — the bytes of a text are read back

A character is written as one to four bytes, and the decoder takes it up again when it stands between two
characters. So bytes that come from a text are well formed and give that text (`decode?_encode`).

The first byte of a character continues no sequence. So a text is read back behind any other bytes as well, even
behind a sequence that is not complete (`decodeLossy_append_encode`).

## Contents
- **Bytes.** `encode` on texts in a row; ASCII characters are one byte, and all other bytes are above
  theirs.
- **One character.** First bytes, further bytes, and `foldl_feed_utf8EncodeChar`.
- **A text.** `decode?_encode`.
- **Behind other bytes.** `decodeLossy_append_encode`.
-/

namespace PacketTrace
namespace Utf8

/-! ## Bytes -/

@[simp] theorem encode_nil : encode [] = [] := rfl

@[simp] theorem encode_append (s t : Text) : encode (s ++ t) = encode s ++ encode t :=
  List.flatMap_append

theorem encode_cons (c : Char) (t : Text) : encode (c :: t) = String.utf8EncodeChar c ++ encode t :=
  List.flatMap_cons

/-- The bytes of a character by its number. -/
theorem utf8EncodeChar_eq (c : Char) :
    String.utf8EncodeChar c =
      if c.toNat ≤ 0x7F then [.ofNat c.toNat]
      else if c.toNat ≤ 0x7FF then
        [.ofNat (c.toNat / 0x40 % 0x20 + 0xC0), .ofNat (c.toNat % 0x40 + 0x80)]
      else if c.toNat ≤ 0xFFFF then
        [.ofNat (c.toNat / 0x1000 % 0x10 + 0xE0), .ofNat (c.toNat / 0x40 % 0x40 + 0x80),
          .ofNat (c.toNat % 0x40 + 0x80)]
      else
        [.ofNat (c.toNat / 0x40000 % 0x08 + 0xF0), .ofNat (c.toNat / 0x1000 % 0x40 + 0x80),
          .ofNat (c.toNat / 0x40 % 0x40 + 0x80), .ofNat (c.toNat % 0x40 + 0x80)] :=
  rfl

/-- An ASCII character is its own byte. -/
theorem utf8EncodeChar_of_ascii {c : Char} (h : c.toNat ≤ 0x7F) :
    String.utf8EncodeChar c = [.ofNat c.toNat] := by
  rw [utf8EncodeChar_eq, if_pos h]

/-- The bytes of any other character are no ASCII bytes. -/
theorem le_of_mem_utf8EncodeChar {c : Char} (h : 0x7F < c.toNat) {b : UInt8}
    (hb : b ∈ String.utf8EncodeChar c) : 0x80 ≤ b := by
  have hbyte : ∀ n < 0x80, (0x80 : UInt8) ≤ .ofNat (n + 0x80) := by decide
  rw [utf8EncodeChar_eq, if_neg (Nat.not_le_of_gt h)] at hb
  split at hb
  · simp only [List.mem_cons, List.not_mem_nil, or_false] at hb
    rcases hb with rfl | rfl
    · exact hbyte (c.toNat / 0x40 % 0x20 + 0x40) (by omega)
    · exact hbyte _ (by omega)
  split at hb
  · simp only [List.mem_cons, List.not_mem_nil, or_false] at hb
    rcases hb with rfl | rfl | rfl
    · exact hbyte (c.toNat / 0x1000 % 0x10 + 0x60) (by omega)
    · exact hbyte _ (by omega)
    · exact hbyte _ (by omega)
  · simp only [List.mem_cons, List.not_mem_nil, or_false] at hb
    rcases hb with rfl | rfl | rfl | rfl
    · exact hbyte (c.toNat / 0x40000 % 0x08 + 0x70) (by omega)
    · exact hbyte _ (by omega)
    · exact hbyte _ (by omega)
    · exact hbyte _ (by omega)

/-! ## One character -/

theorem lead_one : ∀ n < 0x80, lead (.ofNat n) = .whole (Char.ofNat n) := by
  decide

/-- The first of two bytes. -/
theorem lead_two : ∀ n < 0x20, 2 ≤ n → lead (.ofNat (n + 0xC0)) = .opens ⟨1, 0x80, 0xBF, n⟩ := by
  decide

/-- The first of three bytes. -/
theorem lead_three : ∀ n < 0x10, lead (.ofNat (n + 0xE0)) =
    .opens ⟨2, if n = 0 then 0xA0 else 0x80, if n = 0xD then 0x9F else 0xBF, n⟩ := by
  decide

/-- The first of four bytes. -/
theorem lead_four : ∀ n < 5, lead (.ofNat (n + 0xF0)) =
    .opens ⟨3, if n = 0 then 0x90 else 0x80, if n = 4 then 0x8F else 0xBF, n⟩ := by
  decide

namespace Decoder

variable {read : List (Option Char)}

theorem feed_whole {b : UInt8} {c : Char} (h : lead b = .whole c) :
    feed ⟨read, none⟩ b = ⟨some c :: read, none⟩ := by
  show start _ b = _
  rw [start, h]

theorem feed_opens {b : UInt8} {p : Pending} (h : lead b = .opens p) :
    feed ⟨read, none⟩ b = ⟨read, some p⟩ := by
  show start _ b = _
  rw [start, h]

/-- A further byte that stays within the bounds of the sequence. -/
theorem feed_more {due : Nat} {low high : UInt8} {bits n : Nat} (hn : n < 0x40)
    (hlow : low.toNat ≤ n + 0x80) (hhigh : n + 0x80 ≤ high.toNat) :
    feed ⟨read, some ⟨due, low, high, bits⟩⟩ (.ofNat (n + 0x80)) =
      if due = 1 then ⟨some (Char.ofNat (bits * 64 + n)) :: read, none⟩
      else ⟨read, some ⟨due - 1, 0x80, 0xBF, bits * 64 + n⟩⟩ := by
  have hbyte : (UInt8.ofNat (n + 0x80)).toNat = n + 0x80 := UInt8.toNat_ofNat_of_lt' (by
    show n + 0x80 < 256
    omega)
  have hvalue : (n + 0x80) % 64 = n := by omega
  have hbounds : low ≤ UInt8.ofNat (n + 0x80) ∧ UInt8.ofNat (n + 0x80) ≤ high := by
    rw [UInt8.le_iff_toNat_le, UInt8.le_iff_toNat_le, hbyte]
    exact ⟨hlow, hhigh⟩
  unfold feed
  dsimp only
  rw [if_pos (by simpa using hbounds), hbyte, hvalue]

/-- **A character is read back.** The bounds for the second byte hold because the number of a character is
    neither written longer than need be, nor that of a surrogate, nor too large. -/
theorem foldl_feed_utf8EncodeChar (c : Char) :
    (String.utf8EncodeChar c).foldl feed ⟨read, none⟩ = ⟨some c :: read, none⟩ := by
  have hvalid : c.toNat < 0xD800 ∨ 0xDFFF < c.toNat ∧ c.toNat < 0x110000 := c.valid
  have hnumber (n : Nat) (h : n = c.toNat) : Char.ofNat n = c := by rw [h, Char.ofNat_toNat]
  rw [utf8EncodeChar_eq]
  split
  · rw [List.foldl_cons, List.foldl_nil, feed_whole (lead_one _ (by omega)), hnumber _ rfl]
  split
  · rw [List.foldl_cons, feed_opens (lead_two _ (by omega) (by omega)), List.foldl_cons, List.foldl_nil,
      feed_more (by omega) (by simp) (by simp; omega), if_pos rfl, hnumber _ (by omega)]
  split
  · have hlow : (if c.toNat / 0x1000 % 0x10 = 0 then 0xA0 else 0x80 : UInt8).toNat ≤
        c.toNat / 0x40 % 0x40 + 0x80 := by
      split
      · simp only [UInt8.reduceToNat]; omega
      · simp only [UInt8.reduceToNat]; omega
    have hhigh : c.toNat / 0x40 % 0x40 + 0x80 ≤
        (if c.toNat / 0x1000 % 0x10 = 0xD then 0x9F else 0xBF : UInt8).toNat := by
      split
      · simp only [UInt8.reduceToNat]; omega
      · simp only [UInt8.reduceToNat]; omega
    rw [List.foldl_cons, feed_opens (lead_three _ (by omega)), List.foldl_cons,
      feed_more (by omega) hlow hhigh, if_neg (by decide), List.foldl_cons, List.foldl_nil,
      feed_more (by omega) (by simp) (by simp; omega), if_pos rfl, hnumber _ (by omega)]
  · have hlow : (if c.toNat / 0x40000 % 0x08 = 0 then 0x90 else 0x80 : UInt8).toNat ≤
        c.toNat / 0x1000 % 0x40 + 0x80 := by
      split
      · simp only [UInt8.reduceToNat]; omega
      · simp only [UInt8.reduceToNat]; omega
    have hhigh : c.toNat / 0x1000 % 0x40 + 0x80 ≤
        (if c.toNat / 0x40000 % 0x08 = 4 then 0x8F else 0xBF : UInt8).toNat := by
      split
      · simp only [UInt8.reduceToNat]; omega
      · simp only [UInt8.reduceToNat]; omega
    rw [List.foldl_cons, feed_opens (lead_four _ (by omega)), List.foldl_cons,
      feed_more (by omega) hlow hhigh, if_neg (by decide), List.foldl_cons,
      feed_more (by omega) (by simp) (by simp; omega), if_neg (by decide), List.foldl_cons,
      List.foldl_nil, feed_more (by omega) (by simp) (by simp; omega), if_pos rfl,
      hnumber _ (by omega)]

theorem foldl_feed_encode (t : Text) :
    (encode t).foldl feed ⟨read, none⟩ = ⟨(t.map some).reverse ++ read, none⟩ := by
  induction t generalizing read with
  | nil => rfl
  | cons c t ih =>
    rw [encode_cons, List.foldl_append, foldl_feed_utf8EncodeChar, ih, List.map_cons,
      List.reverse_cons, List.append_assoc, List.singleton_append]

end Decoder

/-! ## A text -/

/-- The bytes of a text are cut into its characters and nothing else. -/
theorem pieces_encode (t : Text) : pieces (encode t) = t.map some := by
  show Decoder.finish ((encode t).foldl Decoder.feed ⟨[], none⟩) = _
  rw [Decoder.foldl_feed_encode, List.append_nil, Decoder.finish, List.reverse_reverse]

/-- **The bytes of a text give it back.** -/
theorem decode?_encode (t : Text) : decode? (encode t) = some t := by
  unfold decode?
  rw [pieces_encode]
  induction t with
  | nil => rfl
  | cons c t ih =>
    rw [List.map_cons, List.mapM_cons, ih]
    rfl

/-! ## Behind other bytes -/

/-- The first byte of a character continues no sequence. -/
theorem exists_first_utf8EncodeChar (c : Char) :
    ∃ b rest, String.utf8EncodeChar c = b :: rest ∧ (b.toNat < 0x80 ∨ 0xC0 ≤ b.toNat) := by
  have htoNat : ∀ n < 0x100, (UInt8.ofNat n).toNat = n := fun n hn => UInt8.toNat_ofNat_of_lt' hn
  rw [utf8EncodeChar_eq]
  split
  · exact ⟨_, _, rfl, .inl (by rw [htoNat _ (by omega)]; omega)⟩
  split
  · exact ⟨_, _, rfl, .inr (by rw [htoNat _ (by omega)]; omega)⟩
  split
  · exact ⟨_, _, rfl, .inr (by rw [htoNat _ (by omega)]; omega)⟩
  · exact ⟨_, _, rfl, .inr (by rw [htoNat _ (by omega)]; omega)⟩

/-- A byte that continues no sequence ends what is pending. -/
theorem Decoder.feed_settled {d : Decoder} (hd : d.Proper) {b : UInt8}
    (hb : b.toNat < 0x80 ∨ 0xC0 ≤ b.toNat) : d.feed b = d.settled.feed b := by
  obtain ⟨read, pending⟩ := d
  cases pending with
  | none => rfl
  | some p =>
    have hp : p.Proper := hd p rfl
    have hbounds : ¬ (decide (p.low ≤ b) && decide (b ≤ p.high)) = true := by
      rw [Bool.and_eq_true, decide_eq_true_iff, decide_eq_true_iff, UInt8.le_iff_toNat_le,
        UInt8.le_iff_toNat_le]
      rintro ⟨hlow, hhigh⟩
      have hlow := Nat.le_trans hp.low hlow
      have hhigh := Nat.le_trans hhigh hp.high
      omega
    unfold feed settled
    dsimp only
    rw [if_neg hbounds]

/-- **A text behind other bytes.** They are cut as if they stood alone. -/
theorem pieces_append_encode (bytes : Bytes) (t : Text) :
    pieces (bytes ++ encode t) = pieces bytes ++ t.map some := by
  have hproper : (bytes.foldl Decoder.feed {}).Proper := Decoder.proper_empty.foldl bytes
  cases t with
  | nil => rw [encode_nil, List.append_nil, List.map_nil, List.append_nil]
  | cons c t =>
    obtain ⟨b, rest, hfirst, hb⟩ := exists_first_utf8EncodeChar c
    have henter : ∀ d : Decoder, d.Proper →
        (encode (c :: t)).foldl Decoder.feed d = (encode (c :: t)).foldl Decoder.feed d.settled := by
      intro d hd
      rw [encode_cons, hfirst, List.cons_append, List.foldl_cons, List.foldl_cons, Decoder.feed_settled hd hb]
    unfold pieces
    rw [List.foldl_append, henter _ hproper, Decoder.finish_eq (bytes.foldl Decoder.feed {})]
    generalize (bytes.foldl Decoder.feed {}) = d
    show Decoder.finish ((encode (c :: t)).foldl Decoder.feed ⟨d.settled.read, none⟩) = _
    rw [Decoder.foldl_feed_encode, Decoder.finish, List.reverse_append, List.reverse_reverse]

theorem decodeLossy_append_encode (bytes : Bytes) (t : Text) :
    decodeLossy (bytes ++ encode t) = decodeLossy bytes ++ t := by
  unfold decodeLossy
  rw [pieces_append_encode, List.map_append, List.map_map]
  congr 1
  exact List.map_id t

/-- Only a line feed is written as one. -/
theorem lineFeed_not_mem_encode {t : Text} (h : '\n' ∉ t) : lineFeedByte ∉ encode t := by
  intro hmem
  obtain ⟨c, hc, hbyte⟩ := List.mem_flatMap.mp hmem
  by_cases hascii : c.toNat ≤ 0x7F
  · rw [utf8EncodeChar_of_ascii hascii, List.mem_singleton] at hbyte
    have hnumber := congrArg UInt8.toNat hbyte
    rw [UInt8.toNat_ofNat_of_lt' (Nat.lt_of_le_of_lt hascii (by decide))] at hnumber
    obtain rfl : c = '\n' := Char.toNat_inj.mp hnumber.symm
    exact h hc
  · exact absurd (le_of_mem_utf8EncodeChar (Nat.lt_of_not_le hascii) hbyte) (by decide)

end Utf8
end PacketTrace

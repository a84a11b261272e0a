import Mathlib.Data.List.Forall2
import PacketTrace.Proofs.Text.Blank
import PacketTrace.Proofs.Text.Utf8
import PacketTrace.Report.Aggregate

/-!
# `Proofs.Text.Lines` — the lines of a text and the lines of its bytes

`Text.lines` is what a reader of whole texts calls lines: cut at every line feed, with no terminator left.
`rawLines` cuts bytes and keeps the terminators. Decoded one by one, the raw lines of a file are the lines
of the decoded file, up to the terminator at the end of each (`forall₂_lines_rawLines`).

Both are cut in the same place, so both are taken apart by the same step: a list without a separator, or
a list whose first separator ends its first line (`induction_on_separator`).

## Contents
- **Cutting.** `induction_on_separator`; a list is cut at its first mark in one way only, and at its last as well.
- **Lines of a text.** `Text.dropReturn`, `Text.lines`, and one equation for each of the two cases;
  `Text.split` is the inverse of `Text.join` (`split_join`, `join_split`).
- **Lines of bytes.** The same two equations for `rawLines`.
- **Both.** `Text.ExtendsByBlank` and `forall₂_lines_rawLines`.
-/

namespace PacketTrace

/-- **Cutting at separators.** What holds of lists without a separator, and of a list once it holds of
    what comes after its first separator, holds of every list. -/
theorem induction_on_separator {α : Type} {motive : List α → Prop} (separator : α)
    (single : ∀ piece, separator ∉ piece → motive piece)
    (cut : ∀ piece rest, separator ∉ piece → motive rest → motive (piece ++ separator :: rest))
    (xs : List α) : motive xs := by
  induction hn : xs.length using Nat.strong_induction_on generalizing xs with
  | _ n ih =>
    -- cut at the first separator; what comes after it is shorter
    by_cases hmem : separator ∈ xs
    · obtain ⟨piece, rest, rfl, hpiece⟩ := List.eq_append_cons_of_mem hmem
      rw [List.length_append, List.length_cons] at hn
      exact cut piece rest hpiece (ih rest.length (by omega) rest rfl)
    · exact single xs hmem

/-- **The first mark cuts a list in one way only.** -/
theorem append_cons_inj_of_first {α : Type} {p : α → Prop} {xs xs' ys ys' : List α} {a a' : α}
    (hxs : ∀ x ∈ xs, ¬ p x) (hxs' : ∀ x ∈ xs', ¬ p x) (ha : p a) (ha' : p a') :
    xs ++ a :: ys = xs' ++ a' :: ys' ↔ xs = xs' ∧ a = a' ∧ ys = ys' := by
  constructor
  · intro h
    induction xs generalizing xs' with
    | nil =>
      cases xs' with
      | nil => exact ⟨rfl, List.cons.inj h⟩
      | cons x' xs' =>
        -- the mark would stand among the items before the other mark
        cases h
        exact absurd ha (hxs' _ List.mem_cons_self)
    | cons x xs ih =>
      cases xs' with
      | nil =>
        cases h
        exact absurd ha' (hxs _ List.mem_cons_self)
      | cons x' xs' =>
        obtain ⟨rfl, hrest⟩ := List.cons.inj h
        rw [List.forall_mem_cons] at hxs hxs'
        obtain ⟨rfl, hmark⟩ := ih hxs.2 hxs'.2 hrest
        exact ⟨rfl, hmark⟩
  · rintro ⟨rfl, rfl, rfl⟩
    rfl

theorem append_cons_inj_of_not_mem {α : Type} {xs xs' ys ys' : List α} {a : α} (h : a ∉ xs) (h' : a ∉ xs') :
    xs ++ a :: ys = xs' ++ a :: ys' ↔ xs = xs' ∧ ys = ys' := by
  have hother {zs : List α} (hzs : a ∉ zs) : ∀ z ∈ zs, ¬ z = a := by
    intro z hz heq
    exact hzs (heq ▸ hz)
  rw [append_cons_inj_of_first (hother h) (hother h') rfl rfl]
  simp only [true_and]

/-- **The last mark cuts a list in one way only.** -/
theorem append_cons_inj_of_last {α : Type} {p : α → Prop} {xs xs' ys ys' : List α} {a a' : α}
    (hys : ∀ y ∈ ys, ¬ p y) (hys' : ∀ y ∈ ys', ¬ p y) (ha : p a) (ha' : p a') :
    xs ++ a :: ys = xs' ++ a' :: ys' ↔ xs = xs' ∧ a = a' ∧ ys = ys' := by
  have hreverse : ys.reverse ++ a :: xs.reverse = ys'.reverse ++ a' :: xs'.reverse ↔
      ys.reverse = ys'.reverse ∧ a = a' ∧ xs.reverse = xs'.reverse :=
    append_cons_inj_of_first (fun y hy => hys y (List.mem_reverse.mp hy))
      (fun y hy => hys' y (List.mem_reverse.mp hy)) ha ha'
  rw [List.reverse_inj, List.reverse_inj] at hreverse
  rw [← List.reverse_inj, List.reverse_append, List.reverse_append, List.reverse_cons, List.reverse_cons,
    List.append_assoc, List.append_assoc, List.singleton_append, List.singleton_append, hreverse]
  constructor
  · rintro ⟨hbehind, hmark, hbefore⟩
    exact ⟨hbefore, hmark, hbehind⟩
  · rintro ⟨hbefore, hmark, hbehind⟩
    exact ⟨hbehind, hmark, hbefore⟩

namespace Text

/-! ## Lines of a text -/

/-- A line without the carriage return of its terminator. -/
def dropReturn (line : Text) : Text :=
  if line.getLast? = some '\r' then line.dropLast else line

/-- The lines of a text. They end at line feeds, the terminator LF or CR LF is no part of them, and the
    text after the last line feed is a line unless it is empty. -/
def lines (t : Text) : List Text :=
  let pieces := split '\n' t
  pieces.dropLast.map dropReturn ++ (pieces.getLast?.filter (· ≠ [])).toList

theorem split_cons (separator c : Char) (t : Text) :
    split separator (c :: t) =
      if c = separator then [] :: split separator t
      else match split separator t with
        | [] => [[c]]
        | piece :: others => (c :: piece) :: others :=
  rfl

theorem split_ne_nil (separator : Char) (t : Text) : split separator t ≠ [] := by
  cases t with
  | nil => exact List.cons_ne_nil _ _
  | cons c t =>
    rw [split_cons]
    split
    · exact List.cons_ne_nil _ _
    · split
      · exact List.cons_ne_nil _ _
      · exact List.cons_ne_nil _ _

theorem split_cons_of_ne {c separator : Char} (h : c ≠ separator) {t piece : Text} {others : List Text}
    (ht : split separator t = piece :: others) :
    split separator (c :: t) = (c :: piece) :: others := by
  rw [split_cons, if_neg h, ht]

theorem split_of_not_mem {separator : Char} {t : Text} (h : separator ∉ t) :
    split separator t = [t] := by
  induction t with
  | nil => rfl
  | cons c t ih =>
    rw [List.mem_cons, not_or] at h
    exact split_cons_of_ne (Ne.symm h.1) (ih h.2)

theorem split_append {separator : Char} {piece : Text} (h : separator ∉ piece) (rest : Text) :
    split separator (piece ++ separator :: rest) = piece :: split separator rest := by
  induction piece with
  | nil => rw [List.nil_append, split_cons, if_pos rfl]
  | cons c piece ih =>
    rw [List.mem_cons, not_or] at h
    exact split_cons_of_ne (Ne.symm h.1) (ih h.2)

/-- A separator cuts a text wherever it stands. -/
theorem split_append_cons (separator : Char) (t rest : Text) :
    split separator (t ++ separator :: rest) = split separator t ++ split separator rest := by
  induction t using induction_on_separator separator with
  | single t hone => rw [split_append hone, split_of_not_mem hone, List.singleton_append]
  | cut first others hfirst ih =>
    rw [List.append_assoc, List.cons_append, split_append hfirst, split_append hfirst, ih, List.cons_append]

/-- No piece holds the separator. -/
theorem not_mem_of_mem_split {separator : Char} {t piece : Text} (h : piece ∈ split separator t) :
    separator ∉ piece := by
  induction t using induction_on_separator separator with
  | single t hone =>
    rw [split_of_not_mem hone, List.mem_singleton] at h
    rw [h]
    exact hone
  | cut first rest hfirst ih =>
    rw [split_append hfirst, List.mem_cons] at h
    rcases h with rfl | hrest
    · exact hfirst
    · exact ih hrest

/-- Pieces that were joined are cut apart again. -/
theorem split_join {separator : Char} {pieces : List Text} (hne : pieces ≠ [])
    (h : ∀ piece ∈ pieces, separator ∉ piece) : split separator (join [separator] pieces) = pieces := by
  induction pieces with
  | nil => exact absurd rfl hne
  | cons piece others ih =>
    rw [List.forall_mem_cons] at h
    cases others with
    | nil => exact split_of_not_mem h.1
    | cons next others =>
      rw [join, List.append_assoc, List.singleton_append, split_append h.1,
        ih (List.cons_ne_nil next others) h.2]
      exact List.cons_ne_nil next others

/-- What occurs in a joined text occurs in a piece or in the separator. -/
theorem mem_join {c : Char} {separator : Text} {pieces : List Text} (h : c ∈ join separator pieces) :
    c ∈ separator ∨ ∃ piece ∈ pieces, c ∈ piece := by
  induction pieces with
  | nil => cases h
  | cons piece others ih =>
    cases others with
    | nil => exact .inr ⟨piece, List.mem_cons_self, h⟩
    | cons next others =>
      rw [join, List.mem_append, List.mem_append] at h
      · rcases h with (h | h) | h
        · exact .inr ⟨piece, List.mem_cons_self, h⟩
        · exact .inl h
        · exact (ih h).imp_right fun ⟨found, hfound, hc⟩ => ⟨found, List.mem_cons_of_mem piece hfound, hc⟩
      · exact List.cons_ne_nil next others

/-- The pieces of a text make it up again. -/
theorem join_split (separator : Char) (t : Text) : join [separator] (split separator t) = t := by
  induction t using induction_on_separator separator with
  | single t hone => rw [split_of_not_mem hone, join]
  | cut first rest hfirst ih =>
    rw [split_append hfirst]
    cases hsplit : split separator rest with
    | nil => exact absurd hsplit (split_ne_nil separator rest)
    | cons piece others =>
      rw [hsplit] at ih
      rw [join, ih, List.append_assoc, List.singleton_append]
      exact List.cons_ne_nil piece others

/-- The pieces of a text tell the text. -/
theorem split_inj (separator : Char) {t u : Text} : split separator t = split separator u ↔ t = u := by
  constructor
  · intro h
    have hjoin := congrArg (join [separator]) h
    rwa [join_split, join_split] at hjoin
  · intro h
    rw [h]

/-- A text without a line feed is a line, if it is anything. -/
theorem lines_of_not_mem {t : Text} (h : '\n' ∉ t) : lines t = if t = [] then [] else [t] := by
  unfold lines
  rw [split_of_not_mem h]
  by_cases ht : t = []
  · rw [if_pos ht, ht]
    rfl
  · rw [if_neg ht]
    simp [ht]

/-- The first line feed ends the first line. -/
theorem lines_append {line : Text} (h : '\n' ∉ line) (rest : Text) :
    lines (line ++ '\n' :: rest) = dropReturn line :: lines rest := by
  unfold lines
  rw [split_append h]
  -- a piece follows, so the first piece is not the last
  have hrest := split_ne_nil '\n' rest
  cases hsplit : split '\n' rest with
  | nil => exact absurd hsplit hrest
  | cons piece others => rfl

/-- No line holds a line feed. -/
theorem not_mem_of_mem_lines {t line : Text} (h : line ∈ lines t) : '\n' ∉ line := by
  unfold lines at h
  rcases List.mem_append.mp h with h | h
  · obtain ⟨piece, hpiece, rfl⟩ := List.mem_map.mp h
    have hfree : '\n' ∉ piece := not_mem_of_mem_split (List.dropLast_subset _ hpiece)
    unfold dropReturn
    split
    · exact fun hmem => hfree (List.dropLast_subset _ hmem)
    · exact hfree
  · rw [Option.mem_toList, Option.filter_eq_some_iff] at h
    exact not_mem_of_mem_split (List.mem_of_getLast? h.1)

example : lines ['a', '\r', '\n', '\n', 'b', '\r'] = [['a'], [], ['b', '\r']] := by decide

/-! ## Terminators -/

/-- The first text is the second with blank characters put at its end. -/
def ExtendsByBlank (long short : Text) : Prop := ∃ w, isAllBlank w = true ∧ long = short ++ w

theorem ExtendsByBlank.refl (t : Text) : ExtendsByBlank t t := ⟨[], rfl, (List.append_nil t).symm⟩

/-- Both terminators are blank. -/
theorem extendsByBlank_dropReturn (line : Text) :
    ExtendsByBlank (line ++ ['\n']) (dropReturn line) := by
  unfold dropReturn
  by_cases h : line.getLast? = some '\r'
  · obtain ⟨body, rfl⟩ := List.getLast?_eq_some_iff.mp h
    refine ⟨['\r', '\n'], by decide, ?_⟩
    rw [if_pos h, List.dropLast_concat, List.append_assoc]
    rfl
  · exact ⟨['\n'], by decide, by rw [if_neg h]⟩

/-- A reader that ignores a blank end reads the same. -/
theorem IgnoresBlankEnd.eq_of_extendsByBlank {β : Type} {read : Text → β} (h : IgnoresBlankEnd read)
    {long short : Text} (hl : ExtendsByBlank long short) : read long = read short := by
  obtain ⟨w, hw, rfl⟩ := hl
  exact h short w hw

end Text

/-! ## Lines of bytes -/

theorem rawLines_cons (b : UInt8) (bytes : Bytes) :
    rawLines (b :: bytes) =
      if b = lineFeed then [b] :: rawLines bytes
      else match rawLines bytes with
        | [] => [[b]]
        | line :: others => (b :: line) :: others :=
  rfl

theorem rawLines_of_not_mem {bytes : Bytes} (h : lineFeed ∉ bytes) :
    rawLines bytes = if bytes = [] then [] else [bytes] := by
  induction bytes with
  | nil => rfl
  | cons b bytes ih =>
    rw [List.mem_cons, not_or] at h
    rw [rawLines_cons, if_neg (Ne.symm h.1), ih h.2]
    cases bytes <;> rfl

theorem rawLines_append {line : Bytes} (h : lineFeed ∉ line) (rest : Bytes) :
    rawLines (line ++ lineFeed :: rest) = (line ++ [lineFeed]) :: rawLines rest := by
  induction line with
  | nil => rw [List.nil_append, rawLines_cons, if_pos rfl, List.nil_append]
  | cons b line ih =>
    rw [List.mem_cons, not_or] at h
    rw [List.cons_append, rawLines_cons, if_neg (Ne.symm h.1), ih h.2]
    rfl

/-! ## Both -/

/-- **Cutting before decoding.** Line by line, a decoded raw line is a line of the decoded file with blank
    characters at its end. -/
theorem forall₂_lines_rawLines (bytes : Bytes) :
    List.Forall₂ Text.ExtendsByBlank ((rawLines bytes).map Utf8.decodeLossy)
      (Text.lines (Utf8.decodeLossy bytes)) := by
  induction bytes using induction_on_separator lineFeed with
  | single bytes h =>
    rw [rawLines_of_not_mem h, Text.lines_of_not_mem (Utf8.lineFeed_not_mem_decodeLossy h)]
    by_cases hnil : bytes = []
    · rw [if_pos hnil, if_pos (Utf8.decodeLossy_eq_nil_iff.mpr hnil)]
      exact .nil
    · rw [if_neg hnil, if_neg (mt Utf8.decodeLossy_eq_nil_iff.mp hnil)]
      exact .cons (.refl _) .nil
  | cut line rest h ih =>
    -- on both sides the first line feed ends the first line
    have hfirst : Utf8.decodeLossy (line ++ [lineFeed]) = Utf8.decodeLossy line ++ ['\n'] :=
      Utf8.decodeLossy_append_lineFeed line []
    have hall : Utf8.decodeLossy (line ++ lineFeed :: rest) =
        Utf8.decodeLossy line ++ '\n' :: Utf8.decodeLossy rest :=
      Utf8.decodeLossy_append_lineFeed line rest
    rw [rawLines_append h, List.map_cons, hfirst, hall,
      Text.lines_append (Utf8.lineFeed_not_mem_decodeLossy h)]
    exact .cons (Text.extendsByBlank_dropReturn _) ih

end PacketTrace

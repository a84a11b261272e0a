import Mathlib.Data.List.DropRight
import Mathlib.Data.List.TakeWhile
import PacketTrace.Text.Numeral
import PacketTrace.Text.Search

/-!
# `Proofs.Text.Blank` — reading a text with blank characters at its end

Lines reach a reader with or without their terminator, so every reader of a line must find the same
when blank characters follow. `IgnoresBlankEnd` says so of one reader, and the lemmas here carry it
through the building blocks of the readers: a word, a run of digits, a run of blanks and a search.

The empty text is the one place where blanks at the end could matter to a building block that skips
blanks, since it makes the difference between no blank and some. A reader that goes on from there must
therefore find nothing in the empty text.

## Contents
- **Whole texts.** `isAllBlank`, `trim` and `contains` ignore a blank end; of a word in blanks, `trim` leaves
  the word.
- **Steps.** `IgnoresBlankEnd.afterWord`, `.afterDigits`, `.afterSkip`.
- **Searches.** `IgnoresBlankEnd.leftmost`, `.leftmostInLine`, `.lastInLine`.
-/

namespace PacketTrace
namespace Text

variable {α β : Type}

/-- Blank characters at the end of a text make no difference to `read`. -/
def IgnoresBlankEnd (read : Text → β) : Prop :=
  ∀ t w, isAllBlank w = true → read (t ++ w) = read t

/-- A text of blank characters only is read as the empty text. -/
theorem IgnoresBlankEnd.blank {read : Text → β} (h : IgnoresBlankEnd read) {w : Text}
    (hw : isAllBlank w = true) : read w = read [] :=
  h [] w hw

theorem isAllBlank_cons {c : Char} {t : Text} :
    isAllBlank (c :: t) = true ↔ isBlank c = true ∧ isAllBlank t = true := by
  unfold isAllBlank
  rw [List.all_cons, Bool.and_eq_true]

theorem forall_isBlank {w : Text} (hw : isAllBlank w = true) : ∀ c ∈ w, isBlank c = true :=
  List.all_eq_true.mp hw

/-- A digit is not blank. -/
theorem isDigit_of_isBlank {c : Char} (h : isBlank c = true) : c.isDigit = false := by
  rw [Bool.eq_false_iff]
  intro hd
  simp only [Char.isDigit, Bool.and_eq_true, decide_eq_true_eq, ge_iff_le, UInt32.le_iff_toNat_le] at hd
  have hlow : 48 ≤ c.toNat := hd.1
  have hhigh : c.toNat ≤ 57 := hd.2
  simp only [isBlank, Bool.or_eq_true, Bool.and_eq_true, decide_eq_true_eq, beq_iff_eq] at h
  omega

theorem isBlank_of_isDigit {c : Char} (h : c.isDigit = true) : isBlank c = false := by
  rw [Bool.eq_false_iff]
  intro hblank
  rw [isDigit_of_isBlank hblank] at h
  cases h

/-! ## Whole texts -/

theorem ignoresBlankEnd_isAllBlank : IgnoresBlankEnd isAllBlank := by
  intro t w hw
  unfold isAllBlank at hw ⊢
  rw [List.all_append, hw, Bool.and_true]

/-- Blanks at the end stay there when blanks in front are skipped, unless there is nothing else. -/
theorem skipBlank_append {w : Text} (hw : isAllBlank w = true) (t : Text) :
    skipBlank (t ++ w) = if isAllBlank t = true then [] else skipBlank t ++ w := by
  have hnil : w.dropWhile isBlank = [] := List.dropWhile_eq_nil_iff.mpr (forall_isBlank hw)
  unfold skipBlank
  rw [List.dropWhile_append, hnil]
  congr 1
  rw [List.isEmpty_iff, List.dropWhile_eq_nil_iff, isAllBlank, List.all_eq_true]

theorem skipBlank_of_isAllBlank {t : Text} (ht : isAllBlank t = true) : skipBlank t = [] :=
  List.dropWhile_eq_nil_iff.mpr (forall_isBlank ht)

theorem trimEnd_append {w : Text} (hw : isAllBlank w = true) (t : Text) :
    trimEnd (t ++ w) = trimEnd t := by
  unfold trimEnd
  rw [List.reverse_append, List.dropWhile_append_of_pos]
  exact fun c hc => forall_isBlank hw c (List.mem_reverse.mp hc)

/-- What `trimEnd` takes away is blank. -/
theorem exists_trimEnd (t : Text) : ∃ w, isAllBlank w = true ∧ t = trimEnd t ++ w :=
  ⟨t.rtakeWhile isBlank, List.all_eq_true.mpr fun _ hc => List.mem_rtakeWhile_imp hc,
    List.rdropWhile_append_rtakeWhile.symm⟩

/-- What is left of a text was there before. -/
theorem mem_of_mem_trim {c : Char} {t : Text} (h : c ∈ trim t) : c ∈ t :=
  (List.dropWhile_suffix isBlank).subset ((List.rdropWhile_prefix isBlank (skipBlank t)).subset h)

theorem ignoresBlankEnd_trim : IgnoresBlankEnd trim := by
  intro t w hw
  unfold trim
  rw [skipBlank_append hw]
  by_cases ht : isAllBlank t = true
  · rw [if_pos ht, skipBlank_of_isAllBlank ht]
  · rw [if_neg ht, trimEnd_append hw]

/-! ## Words -/

/-- A word without blank characters. -/
def IsWord (word : Text) : Prop := ∀ c ∈ word, isBlank c = false

instance (word : Text) : Decidable (IsWord word) :=
  List.decidableBAll _ word

theorem isWord_append {s t : Text} : IsWord (s ++ t) ↔ IsWord s ∧ IsWord t := List.forall_mem_append

/-- Blanks around a word are trimmed, and nothing of the word. -/
theorem trim_padded {before word after : Text} (hbefore : isAllBlank before = true)
    (hword : IsWord word) (hafter : isAllBlank after = true) : trim (before ++ word ++ after) = word := by
  have hbegin : skipBlank (before ++ word) = word := by
    unfold skipBlank
    rw [List.dropWhile_append_of_pos (forall_isBlank hbefore), List.dropWhile_eq_self_iff]
    intro hpos
    rw [hword _ (List.getElem_mem hpos)]
    exact Bool.false_ne_true
  have hend : trimEnd word = word := by
    unfold trimEnd
    rw [List.dropWhile_eq_self_iff.mpr, List.reverse_reverse]
    intro hpos
    rw [hword _ (List.mem_reverse.mp (List.getElem_mem hpos))]
    exact Bool.false_ne_true
  rw [ignoresBlankEnd_trim _ _ hafter, trim, hbegin, hend]

/-- What is blank does not occur in a word. -/
theorem IsWord.not_mem {word : Text} (h : IsWord word) {c : Char} (hc : isBlank c = true) : c ∉ word := by
  intro hmem
  rw [h c hmem] at hc
  cases hc

theorem isPrefixOf?_cons (c d : Char) (word t : Text) :
    (c :: word).isPrefixOf? (d :: t) = if (c == d) = true then word.isPrefixOf? t else none :=
  rfl

/-- A word that begins in front of the blank end lies in front of it. -/
theorem isPrefixOf?_append {word w : Text} (hword : IsWord word) (hw : isAllBlank w = true)
    (t : Text) : word.isPrefixOf? (t ++ w) = (word.isPrefixOf? t).map (· ++ w) := by
  induction word generalizing t with
  | nil => rfl
  | cons c word ih =>
    obtain ⟨hc, hrest⟩ := List.forall_mem_cons.mp hword
    cases t with
    | cons d t =>
      rw [List.cons_append, isPrefixOf?_cons, isPrefixOf?_cons]
      by_cases hd : (c == d) = true
      · rw [if_pos hd, if_pos hd]
        exact ih hrest t
      · rw [if_neg hd, if_neg hd]
        rfl
    | nil =>
      -- the word would have to begin in the blank end
      cases w with
      | nil => rfl
      | cons d w =>
        have hd : isBlank d = true := (isAllBlank_cons.mp hw).1
        have hne : ¬ (c == d) = true := by
          intro h
          rw [beq_iff_eq.mp h, hd] at hc
          exact Bool.noConfusion hc
        rw [List.nil_append, isPrefixOf?_cons, if_neg hne]
        rfl

theorem isPrefixOf_eq_isSome (word t : Text) :
    word.isPrefixOf t = (word.isPrefixOf? t).isSome := by
  induction word generalizing t with
  | nil => cases t <;> rfl
  | cons c word ih =>
    cases t with
    | nil => rfl
    | cons d t =>
      rw [List.isPrefixOf, isPrefixOf?_cons, ih t]
      by_cases hd : (c == d) = true
      · rw [hd, if_pos rfl, Bool.true_and]
      · rw [if_neg hd, Bool.eq_false_iff.mpr hd]
        rfl

/-- No word begins in the blank end. -/
theorem contains_blank {word w : Text} (hword : IsWord word) (hne : word ≠ [])
    (hw : isAllBlank w = true) : contains word w = false := by
  have hnil : word.isPrefixOf? [] = none := by
    cases word with
    | nil => exact absurd rfl hne
    | cons c word => rfl
  induction w with
  | nil => exact List.isEmpty_eq_false_iff.mpr hne
  | cons d w ih =>
    have hprefix : word.isPrefixOf (d :: w) = false := by
      rw [isPrefixOf_eq_isSome, ← List.nil_append (d :: w), isPrefixOf?_append hword hw, hnil]
      rfl
    rw [contains, hprefix]
    exact ih (isAllBlank_cons.mp hw).2

theorem ignoresBlankEnd_contains {word : Text} (hword : IsWord word) (hne : word ≠ []) :
    IgnoresBlankEnd (contains word) := by
  intro t w hw
  induction t with
  | nil => rw [List.nil_append, contains_blank hword hne hw]; exact (contains_blank hword hne rfl).symm
  | cons c t ih =>
    rw [List.cons_append, contains, contains, ih, ← List.cons_append, isPrefixOf_eq_isSome,
      isPrefixOf?_append hword hw, Option.isSome_map, ← isPrefixOf_eq_isSome]

/-! ## Steps

Each step consumes something at the front of the text and hands the rest on to `next`. -/

theorem IgnoresBlankEnd.const (value : β) : IgnoresBlankEnd fun _ => value := fun _ _ _ => rfl

theorem IgnoresBlankEnd.bind {read : Text → Option α} (h : IgnoresBlankEnd read)
    (next : α → Option β) : IgnoresBlankEnd fun t => (read t).bind next :=
  fun t w hw => congrArg (Option.bind · next) (h t w hw)

/-- After a word. -/
theorem IgnoresBlankEnd.afterWord {word : Text} (hword : IsWord word) {next : Text → Option β}
    (h : IgnoresBlankEnd next) : IgnoresBlankEnd fun t => (word.isPrefixOf? t).bind next := by
  intro t w hw
  show (word.isPrefixOf? (t ++ w)).bind next = (word.isPrefixOf? t).bind next
  rw [isPrefixOf?_append hword hw]
  cases word.isPrefixOf? t with
  | none => rfl
  | some rest => exact h rest w hw

/-- A run ends where only other characters follow, if not before. -/
theorem takeWhile_append_of_forall_not {p : Char → Bool} {w : Text} (hw : ∀ c ∈ w, ¬ p c = true)
    (t : Text) : (t ++ w).takeWhile p = t.takeWhile p ∧ (t ++ w).dropWhile p = t.dropWhile p ++ w := by
  induction t with
  | nil =>
    cases w with
    | nil => exact ⟨rfl, rfl⟩
    | cons d w =>
      have hd := hw d List.mem_cons_self
      exact ⟨List.takeWhile_cons_of_neg hd, List.dropWhile_cons_of_neg hd⟩
  | cons c t ih =>
    obtain ⟨htake, hdrop⟩ := ih
    rw [List.cons_append, List.takeWhile_cons, List.takeWhile_cons, List.dropWhile_cons,
      List.dropWhile_cons, htake, hdrop]
    by_cases hc : p c = true
    · rw [if_pos hc, if_pos hc, if_pos hc]
      exact ⟨rfl, rfl⟩
    · rw [if_neg hc, if_neg hc, if_neg hc]
      exact ⟨rfl, rfl⟩

/-- A run of digits ends where the blank end begins, if not before. -/
theorem leadingDigits?_append {w : Text} (hw : isAllBlank w = true) (t : Text) :
    Numeral.leadingDigits? (t ++ w) =
      (Numeral.leadingDigits? t).map fun found => (found.1, found.2 ++ w) := by
  have hdigit : ∀ c ∈ w, ¬ c.isDigit = true := by
    intro c hc
    rw [isDigit_of_isBlank (forall_isBlank hw c hc)]
    exact Bool.false_ne_true
  obtain ⟨htake, hdrop⟩ := takeWhile_append_of_forall_not hdigit t
  unfold Numeral.leadingDigits?
  rw [htake, hdrop]
  cases t.takeWhile Char.isDigit <;> rfl

/-- After a run of digits. -/
theorem IgnoresBlankEnd.afterDigits {next : Text × Text → Option β}
    (h : ∀ digits, IgnoresBlankEnd fun rest => next (digits, rest)) :
    IgnoresBlankEnd fun t => (Numeral.leadingDigits? t).bind next := by
  intro t w hw
  show (Numeral.leadingDigits? (t ++ w)).bind next = (Numeral.leadingDigits? t).bind next
  rw [leadingDigits?_append hw]
  cases Numeral.leadingDigits? t with
  | none => rfl
  | some found => exact h found.1 found.2 w hw

/-- After a run of blanks, which may be empty. -/
theorem IgnoresBlankEnd.afterSkip {next : Text → β} (h : IgnoresBlankEnd next) :
    IgnoresBlankEnd fun t => next (skipBlank t) := by
  intro t w hw
  show next (skipBlank (t ++ w)) = next (skipBlank t)
  rw [skipBlank_append hw]
  by_cases ht : isAllBlank t = true
  · rw [if_pos ht, skipBlank_of_isAllBlank ht]
  · rw [if_neg ht]
    exact h (skipBlank t) w hw

/-! ## Searches

A search that reaches the blank end finds there what it finds in the empty text, which must be
nothing. -/

section

variable {recognise : Text → Option α}

theorem IgnoresBlankEnd.leftmost (h : IgnoresBlankEnd recognise) (hnil : recognise [] = none) :
    IgnoresBlankEnd (leftmost recognise) := by
  -- the blank end alone, where every position is read like the empty text
  have hblank : ∀ w, isAllBlank w = true → Text.leftmost recognise w = none := by
    intro w hw
    induction w with
    | nil => exact hnil
    | cons c w ih =>
      rw [Text.leftmost, h.blank hw, hnil]
      exact ih (isAllBlank_cons.mp hw).2
  intro t w hw
  induction t with
  | nil => rw [List.nil_append, hblank w hw, hblank [] rfl]
  | cons c t ih => rw [List.cons_append, Text.leftmost, Text.leftmost, ih, ← List.cons_append, h _ w hw]

theorem IgnoresBlankEnd.leftmostInLine (h : IgnoresBlankEnd recognise) (hnil : recognise [] = none) :
    IgnoresBlankEnd (leftmostInLine recognise) := by
  have hblank : ∀ w, isAllBlank w = true → Text.leftmostInLine recognise w = none := by
    intro w hw
    induction w with
    | nil => exact hnil
    | cons c w ih =>
      rw [Text.leftmostInLine, h.blank hw, hnil]
      show (if c = '\n' then none else Text.leftmostInLine recognise w) = none
      split
      · rfl
      · exact ih (isAllBlank_cons.mp hw).2
  intro t w hw
  induction t with
  | nil => rw [List.nil_append, hblank w hw, hblank [] rfl]
  | cons c t ih =>
    rw [List.cons_append, Text.leftmostInLine, Text.leftmostInLine, ih, ← List.cons_append, h _ w hw]

theorem IgnoresBlankEnd.lastInLine (h : IgnoresBlankEnd recognise) (hnil : recognise [] = none)
    (best : Option α) : IgnoresBlankEnd (lastInLine recognise best) := by
  have hblank : ∀ best w, isAllBlank w = true → Text.lastInLine recognise best w = best := by
    intro best w hw
    induction w with
    | nil => rw [Text.lastInLine, hnil]; rfl
    | cons c w ih =>
      rw [Text.lastInLine, h.blank hw, hnil]
      show (if c = '\n' then best else Text.lastInLine recognise best w) = best
      split
      · rfl
      · exact ih (isAllBlank_cons.mp hw).2
  intro t w hw
  induction t generalizing best with
  | nil => rw [List.nil_append, hblank best w hw, hblank best [] rfl]
  | cons c t ih =>
    rw [List.cons_append, Text.lastInLine, Text.lastInLine, ih, ← List.cons_append, h _ w hw]

end

end Text
end PacketTrace

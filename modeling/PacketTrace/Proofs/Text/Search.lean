import Mathlib.Data.List.Basic
import Mathlib.Data.List.TakeWhile
import PacketTrace.Proofs.Text.Blank
import PacketTrace.Proofs.Text.Numeral

/-!
# `Proofs.Text.Search` — what a reader finds in a text

A reader takes words and runs of characters from the front of a text and hands on the rest. A run ends where
a character of another kind follows, so the text alone decides where it ends, and each reader here is
described by the texts on which it succeeds (`leadingDigits?_eq_some_iff`, `skipBlank_eq_iff`).

A search goes through the places of a text, which `Reaches` lists with the text before each. What it finds
is described by the place: no other is farther on (`lastInLine_eq_some`), or none is farther left
(`FirstPlace`).

## Contents
- **Runs.** `run_iff`, and its uses for digits and blanks.
- **Places.** `Reaches`.
- **The last place.** `lastInLine_eq_none_iff` and `lastInLine_eq_some`.
- **The first place.** `FirstPlace`, and `IsSearch.eq_some_iff` for every search that stops at what it finds
  first; `firstPlace_of_mark` for a form that begins with a mark.
-/

namespace PacketTrace

open Numeral

namespace Text

/-! ## Runs -/

/-- **A run and what follows it.** The run takes all characters of its kind. -/
theorem run_iff {p : Char → Bool} {t run rest : Text} :
    t.takeWhile p = run ∧ t.dropWhile p = rest ↔
      t = run ++ rest ∧ (∀ c ∈ run, p c = true) ∧ ∀ c ∈ rest.head?, p c = false := by
  constructor
  · rintro ⟨rfl, rfl⟩
    refine ⟨List.takeWhile_append_dropWhile.symm, fun c hc => List.mem_takeWhile_imp hc, ?_⟩
    intro c hc
    have hhead := List.head?_dropWhile_not p t
    rw [Option.mem_def.mp hc] at hhead
    exact hhead
  · rintro ⟨rfl, hrun, hrest⟩
    rw [List.takeWhile_append_of_pos hrun, List.dropWhile_append_of_pos hrun]
    cases rest with
    | nil => exact ⟨List.append_nil run, rfl⟩
    | cons c rest =>
      have hc : ¬ p c = true := by
        rw [hrest c rfl]
        exact Bool.false_ne_true
      rw [List.takeWhile_cons_of_neg hc, List.dropWhile_cons_of_neg hc]
      exact ⟨List.append_nil run, rfl⟩

theorem leadingDigits?_eq_some_iff {t digits rest : Text} :
    leadingDigits? t = some (digits, rest) ↔
      t = digits ++ rest ∧ Digits digits ∧ ∀ c ∈ rest.head?, c.isDigit = false := by
  have hrun : leadingDigits? t = some (digits, rest) ↔
      digits ≠ [] ∧ t.takeWhile Char.isDigit = digits ∧ t.dropWhile Char.isDigit = rest := by
    unfold leadingDigits?
    constructor
    · intro h
      split at h
      · cases h
      · rename_i hne
        cases h
        exact ⟨fun hnil => hne hnil, rfl, rfl⟩
    · rintro ⟨hne, htake, hdrop⟩
      rw [htake, hdrop]
      split
      · exact absurd rfl hne
      · rfl
  rw [hrun, run_iff]
  constructor
  · rintro ⟨hne, heq, hdigits, hrest⟩
    exact ⟨heq, ⟨hne, hdigits⟩, hrest⟩
  · rintro ⟨heq, hdigits, hrest⟩
    exact ⟨hdigits.ne_nil, heq, hdigits.isDigit, hrest⟩

/-- A run of digits can be read whatever follows it, though it may go on there. -/
theorem exists_leadingDigits? {digits : Text} (h : Digits digits) (rest : Text) :
    ∃ found, leadingDigits? (digits ++ rest) = some found := by
  cases digits with
  | nil => exact absurd rfl h.ne_nil
  | cons d digits =>
    have hd : d.isDigit = true := h.isDigit d List.mem_cons_self
    unfold leadingDigits?
    rw [List.cons_append, List.takeWhile_cons_of_pos hd]
    exact ⟨_, rfl⟩

/-- A run of digits does not begin with a blank. -/
theorem not_blank_of_digits {digits : Text} (h : Digits digits) (rest : Text) :
    ∀ c ∈ (digits ++ rest).head?, isBlank c = false := by
  intro c hc
  cases digits with
  | nil => exact absurd rfl h.ne_nil
  | cons d digits =>
    cases hc
    exact Text.isBlank_of_isDigit (h.isDigit c List.mem_cons_self)

theorem skipBlank_eq_iff {t rest : Text} :
    skipBlank t = rest ↔
      ∃ gap, t = gap ++ rest ∧ isAllBlank gap = true ∧ ∀ c ∈ rest.head?, isBlank c = false := by
  constructor
  · rintro rfl
    have hsplit : t.takeWhile isBlank = t.takeWhile isBlank ∧ t.dropWhile isBlank = skipBlank t := ⟨rfl, rfl⟩
    obtain ⟨heq, hgap, hrest⟩ := run_iff.mp hsplit
    exact ⟨_, heq, List.all_eq_true.mpr hgap, hrest⟩
  · rintro ⟨gap, heq, hgap, hrest⟩
    exact (run_iff.mpr ⟨heq, forall_isBlank hgap, hrest⟩).2

/-! ## Places -/

/-- In the text there is a place with `before` before it and `there` behind it, and it is reached without
    crossing a line feed. -/
def Reaches (t before there : Text) : Prop := t = before ++ there ∧ '\n' ∉ before

theorem reaches_cons {c : Char} {t before there : Text} :
    Reaches (c :: t) before there ↔
      (before = [] ∧ there = c :: t) ∨
        ∃ more, c ≠ '\n' ∧ before = c :: more ∧ Reaches t more there := by
  unfold Reaches
  cases before with
  | nil => simp [eq_comm]
  | cons d more =>
    simp only [List.cons_append, List.cons.injEq, List.mem_cons, not_or, reduceCtorEq, false_and, false_or]
    constructor
    · rintro ⟨⟨rfl, rfl⟩, hc, hmore⟩
      exact ⟨more, Ne.symm hc, ⟨rfl, rfl⟩, rfl, hmore⟩
    · rintro ⟨_, hc, ⟨rfl, rfl⟩, rfl, hmore⟩
      exact ⟨⟨rfl, rfl⟩, Ne.symm hc, hmore⟩

theorem reaches_nil {before there : Text} : Reaches [] before there ↔ before = [] ∧ there = [] := by
  unfold Reaches
  rw [eq_comm, List.append_eq_nil_iff]
  constructor
  · exact fun h => h.1
  · rintro ⟨rfl, rfl⟩
    exact ⟨⟨rfl, rfl⟩, List.not_mem_nil⟩

/-! ## The last place -/

section

variable {α : Type} {recognise : Text → Option α}

/-- What was found before counts only if nothing is found from here on. -/
theorem lastInLine_eq_or (best : Option α) (t : Text) :
    lastInLine recognise best t = (lastInLine recognise none t).or best := by
  induction t generalizing best with
  | nil => rw [lastInLine, lastInLine, Option.or_none]
  | cons c t ih =>
    rw [lastInLine, lastInLine, Option.or_none]
    split
    · rfl
    · rw [ih, ih (recognise (c :: t)), Option.or_assoc]

/-- What is found later counts, and what is found here only if there is nothing later. -/
theorem lastInLine_cons (c : Char) (t : Text) :
    lastInLine recognise none (c :: t) =
      if c = '\n' then recognise (c :: t) else (lastInLine recognise none t).or (recognise (c :: t)) := by
  rw [lastInLine, Option.or_none, lastInLine_eq_or]

/-- **When there is a place.** -/
theorem lastInLine_eq_none_iff {t : Text} :
    lastInLine recognise none t = none ↔ ∀ before there, Reaches t before there → recognise there = none := by
  induction t with
  | nil =>
    rw [lastInLine, Option.or_none]
    constructor
    · intro h before there hreach
      rw [(reaches_nil.mp hreach).2, h]
    · intro h
      exact h [] [] (reaches_nil.mpr ⟨rfl, rfl⟩)
  | cons c t ih =>
    rw [lastInLine_cons]
    constructor
    · intro h before there hreach
      rcases reaches_cons.mp hreach with ⟨-, rfl⟩ | ⟨more, hc, -, hmore⟩
      · split at h
        · exact h
        · exact (Option.or_eq_none_iff.mp h).2
      · rw [if_neg hc] at h
        exact ih.mp (Option.or_eq_none_iff.mp h).1 more there hmore
    · intro h
      have hhere : recognise (c :: t) = none := h [] _ (reaches_cons.mpr (.inl ⟨rfl, rfl⟩))
      split
      · exact hhere
      · rename_i hc
        rw [hhere, Option.or_none]
        exact ih.mpr fun more there hmore => h _ _ (reaches_cons.mpr (.inr ⟨more, hc, rfl, hmore⟩))

/-- **What the search finds** is at a place after which there is no other. -/
theorem lastInLine_eq_some {t : Text} {found : α} (h : lastInLine recognise none t = some found) :
    ∃ before there, Reaches t before there ∧ recognise there = some found ∧
      ∀ before' there', Reaches t before' there' → (recognise there').isSome = true →
        before'.length ≤ before.length := by
  induction t with
  | nil =>
    rw [lastInLine, Option.or_none] at h
    refine ⟨[], [], reaches_nil.mpr ⟨rfl, rfl⟩, h, fun before' there' hreach _ => ?_⟩
    rw [(reaches_nil.mp hreach).1]
  | cons c t ih =>
    rw [lastInLine_cons] at h
    -- here is the last place if there is none farther on
    have hhere : recognise (c :: t) = some found →
        (∀ more there, c ≠ '\n' → Reaches t more there → recognise there = none) →
          ∃ before there, Reaches (c :: t) before there ∧ recognise there = some found ∧
            ∀ before' there', Reaches (c :: t) before' there' → (recognise there').isSome = true →
              before'.length ≤ before.length := by
      intro hfound hnone
      refine ⟨[], c :: t, reaches_cons.mpr (.inl ⟨rfl, rfl⟩), hfound, ?_⟩
      intro before' there' hreach hsome
      rcases reaches_cons.mp hreach with ⟨rfl, -⟩ | ⟨more, hc, -, hmore⟩
      · exact Nat.le_refl 0
      · rw [hnone more there' hc hmore] at hsome
        cases hsome
    by_cases hc : c = '\n'
    · rw [if_pos hc] at h
      exact hhere h fun _ _ hne => absurd hc hne
    · rw [if_neg hc] at h
      cases hlater : lastInLine recognise none t with
      | none =>
        rw [hlater, Option.none_or] at h
        exact hhere h fun more there _ hmore => lastInLine_eq_none_iff.mp hlater more there hmore
      | some later =>
        rw [hlater, Option.some_or] at h
        cases h
        obtain ⟨before, there, hreach, hfound, hlast⟩ := ih hlater
        refine ⟨c :: before, there, reaches_cons.mpr (.inr ⟨before, hc, rfl, hreach⟩), hfound, ?_⟩
        intro before' there' hreach' hsome
        rcases reaches_cons.mp hreach' with ⟨rfl, -⟩ | ⟨more, -, rfl, hmore⟩
        · exact Nat.zero_le _
        · exact Nat.succ_le_succ (hlast more there' hmore hsome)

end

/-! ## The first place -/

section

variable {α : Type} {recognise search : Text → Option α} {ends : Char → Prop}
  {form : Text → α → Prop} {t : Text} {found : α}

/-- A search that tries place after place: what is found at a place counts, and if nothing is found there
    the search goes on, unless the character at that place ends it. -/
structure IsSearch (ends : Char → Prop) (recognise search : Text → Option α) : Prop where
  nil : search [] = recognise []
  here (c : Char) (t : Text) : (recognise (c :: t)).isSome = true → search (c :: t) = recognise (c :: t)
  ended (c : Char) (t : Text) : recognise (c :: t) = none → ends c → search (c :: t) = none
  onward (c : Char) (t : Text) : recognise (c :: t) = none → ¬ ends c → search (c :: t) = search t

theorem isSearch_leftmost (recognise : Text → Option α) :
    IsSearch (fun _ => False) recognise (leftmost recognise) where
  nil := rfl
  here c t h := by
    obtain ⟨found, hfound⟩ := Option.isSome_iff_exists.mp h
    rw [leftmost, hfound]
  ended c t _ h := h.elim
  onward c t h _ := by rw [leftmost, h]

/-- The text behind `before` is of a form, with `found` in it, and it is the first that is: none farther left
    has a `permitted` text before it and is of the form. -/
structure FirstPlace (permitted : Text → Prop) (form : Text → α → Prop) (t before : Text) (found : α) :
    Prop where
  reached : permitted before
  fits : ∃ there, t = before ++ there ∧ form there found
  first : ∀ before' there' found', t = before' ++ there' → permitted before' → form there' found' →
    before.length ≤ before'.length

/-- A text has one first place at most, and one thing to be found there. -/
theorem FirstPlace.unique {permitted : Text → Prop} {before before' : Text} {found' : α}
    (hform : ∀ t a b, form t a → form t b → a = b) (h : FirstPlace permitted form t before found)
    (h' : FirstPlace permitted form t before' found') : found = found' := by
  obtain ⟨there, rfl, hthere⟩ := h.fits
  obtain ⟨there', heq, hthere'⟩ := h'.fits
  have hlength : before.length = before'.length :=
    Nat.le_antisymm (h.first _ _ _ heq h'.reached hthere') (h'.first _ _ _ rfl h.reached hthere)
  obtain ⟨rfl, rfl⟩ := List.append_inj heq hlength
  exact hform _ _ _ hthere hthere'

/-- Where a mark occurs first, a form that begins with that mark has its first place, if it has one there. -/
theorem firstPlace_of_mark {mark : Char} {before there : Text}
    (hmark : ∀ t found, form t found → t.head? = some mark) (hbefore : mark ∉ before)
    (hthere : form there found) : FirstPlace (fun _ => True) form (before ++ there) before found where
  reached := trivial
  fits := ⟨there, rfl, hthere⟩
  first before' there' found' heq _ hthere' := by
    rcases List.append_eq_append_iff.mp heq with ⟨more, rfl, -⟩ | ⟨more, rfl, rfl⟩
    · rw [List.length_append]
      exact Nat.le_add_right _ _
    · -- a place farther left would have the mark in front of where it occurs first
      have hhead := hmark _ _ hthere'
      cases more with
      | nil => rw [List.append_nil]
      | cons c more =>
        cases hhead
        exact absurd (List.mem_append_right before' List.mem_cons_self) hbefore

/-- The places that a search comes to are those behind texts without a character that ends it. -/
abbrev Avoids (ends : Char → Prop) (before : Text) : Prop := ∀ c ∈ before, ¬ ends c

theorem firstPlace_here (h : form t found) : FirstPlace (Avoids ends) form t [] found where
  reached _ hc := absurd hc List.not_mem_nil
  fits := ⟨t, rfl, h⟩
  first _ _ _ _ _ _ := Nat.zero_le _

theorem FirstPlace.cons {c : Char} {before : Text} (h : FirstPlace (Avoids ends) form t before found)
    (hnot : ∀ found, ¬ form (c :: t) found) (hc : ¬ ends c) :
    FirstPlace (Avoids ends) form (c :: t) (c :: before) found where
  reached := List.forall_mem_cons.mpr ⟨hc, h.reached⟩
  fits := by
    obtain ⟨there, rfl, hthere⟩ := h.fits
    exact ⟨there, rfl, hthere⟩
  first before' there' found' heq hreached hthere' := by
    cases before' with
    | nil =>
      rw [List.nil_append] at heq
      rw [← heq] at hthere'
      exact absurd hthere' (hnot found')
    | cons d before' =>
      rw [List.cons_append, List.cons.injEq] at heq
      exact Nat.succ_le_succ (h.first before' there' found' heq.2 (List.forall_mem_cons.mp hreached).2 hthere')

namespace IsSearch

/-- **What a search finds** is at the first place of the form that its recogniser stands for. -/
theorem exists_firstPlace (h : IsSearch ends recognise search)
    (hform : ∀ t found, recognise t = some found ↔ form t found) (hfound : search t = some found) :
    ∃ before, FirstPlace (Avoids ends) form t before found := by
  induction t with
  | nil =>
    rw [h.nil] at hfound
    exact ⟨[], firstPlace_here ((hform [] found).mp hfound)⟩
  | cons c t ih =>
    cases hhere : recognise (c :: t) with
    | some found' =>
      rw [h.here c t (by rw [hhere]; rfl)] at hfound
      exact ⟨[], firstPlace_here ((hform _ found).mp hfound)⟩
    | none =>
      by_cases hc : ends c
      · rw [h.ended c t hhere hc] at hfound
        cases hfound
      · rw [h.onward c t hhere hc] at hfound
        obtain ⟨before, hbefore⟩ := ih hfound
        refine ⟨c :: before, hbefore.cons (fun found' hthere => ?_) hc⟩
        rw [(hform _ found').mpr hthere] at hhere
        cases hhere

/-- A search finds something if there is something to find. -/
theorem isSome (h : IsSearch ends recognise search) {before there : Text} (hbefore : Avoids ends before)
    (hthere : (recognise there).isSome = true) : (search (before ++ there)).isSome = true := by
  induction before with
  | nil =>
    cases there with
    | nil => rw [List.nil_append, h.nil]; exact hthere
    | cons c there => rw [List.nil_append, h.here c there hthere]; exact hthere
  | cons c before ih =>
    obtain ⟨hc, hbefore⟩ := List.forall_mem_cons.mp hbefore
    rw [List.cons_append]
    cases hhere : recognise (c :: (before ++ there)) with
    | some found => rw [h.here _ _ (by rw [hhere]; rfl), hhere]; rfl
    | none => rw [h.onward _ _ hhere hc]; exact ih hbefore

/-- **A search is described by the first place.** -/
theorem eq_some_iff (h : IsSearch ends recognise search)
    (hform : ∀ t found, recognise t = some found ↔ form t found) :
    search t = some found ↔ ∃ before, FirstPlace (Avoids ends) form t before found := by
  refine ⟨h.exists_firstPlace hform, ?_⟩
  rintro ⟨before, hbefore⟩
  obtain ⟨there, rfl, hthere⟩ := hbefore.fits
  have hrecognise : (recognise there).isSome = true :=
    Option.isSome_iff_exists.mpr ⟨found, (hform there found).mpr hthere⟩
  obtain ⟨found', hfound'⟩ := Option.isSome_iff_exists.mp (h.isSome hbefore.reached hrecognise)
  obtain ⟨before', hbefore'⟩ := h.exists_firstPlace hform hfound'
  have hunique : ∀ t a b, form t a → form t b → a = b := fun t a b ha hb =>
    Option.some.inj (((hform t a).mpr ha).symm.trans ((hform t b).mpr hb))
  rw [hfound', hbefore.unique hunique hbefore']

end IsSearch

/-- The first place anywhere in a text. -/
theorem leftmost_eq_some_iff (hform : ∀ t found, recognise t = some found ↔ form t found) :
    leftmost recognise t = some found ↔ ∃ before, FirstPlace (fun _ => True) form t before found := by
  have hall : Avoids (fun _ => False) = fun _ => True :=
    funext fun before => eq_true fun _ _ h => h
  rw [(isSearch_leftmost recognise).eq_some_iff hform, hall]

end

end Text

end PacketTrace

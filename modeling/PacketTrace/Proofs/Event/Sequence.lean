import Mathlib.Algebra.Group.Nat.Defs
import Mathlib.Data.List.DropRight
import PacketTrace.Event.Sequence
import PacketTrace.Proofs.Text.Lines
import PacketTrace.Proofs.Text.Search

/-!
# `Proofs.Event.Sequence` — which number a line gets

Three forms of text may hold the sequence number of a line: a field behind a bracketed list of flags, a field
of its own, and a pair of ports behind the header mark. `IsFlagList`, `IsSeqField` and `IsHeader` say what a
text of each form looks like and what is read there; no reader appears in them.

A rule looks at the first place of its form and at no other. If the number there is no word, the rule does
not apply and the next one has its turn, though there may be another place of the form farther on. The number
of a line is what the first rule that applies gives (`ofLine_eq_iff`), and the last rule always applies.

## Contents
- **Forms.** `IsSeqField`, `IsFlagList`, `IsPortPair` and `IsHeader`, and the readers that find them.
- **Rules.** `FirstOf`, and `ByFlagList`, `BySeqField`, `ByHeaderPorts` and `ByChecksum`; two of them are a
  `ByNumber`.
- **The number.** `ofLine_eq_iff`.
-/

namespace PacketTrace
namespace SeqMatch

open Numeral Text

/-! ## Forms -/

/-- The text begins with a sequence field, and `digits` are all the digits in it. -/
def IsSeqField (t digits : Text) : Prop :=
  ∃ rest, t = "Seq=".toList ++ (digits ++ rest) ∧ Digits digits ∧ ∀ c ∈ rest.head?, c.isDigit = false

theorem seqFieldAt?_eq_some_iff (t digits : Text) : seqFieldAt? t = some digits ↔ IsSeqField t digits := by
  simp only [seqFieldAt?, IsSeqField, Option.bind_eq_bind, Option.bind_eq_some_iff, Option.pure_def,
    Option.some.injEq, Prod.exists, List.isPrefixOf?_eq_some_iff_append_eq, leadingDigits?_eq_some_iff]
  constructor
  · rintro ⟨_, rfl, digits, rest, ⟨rfl, hdigits, hrest⟩, rfl⟩
    exact ⟨rest, rfl, hdigits, hrest⟩
  · rintro ⟨rest, rfl, hdigits, hrest⟩
    exact ⟨_, rfl, digits, rest, ⟨rfl, hdigits, hrest⟩, rfl⟩

/-- A sequence field does not begin with a blank. -/
theorem IsSeqField.not_blank {t digits : Text} (h : IsSeqField t digits) :
    ∀ c ∈ t.head?, isBlank c = false := by
  obtain ⟨rest, rfl, -, -⟩ := h
  intro c hc
  cases hc
  rfl

/-- The text begins with brackets around the text `found.1`, which is not empty and ends at the first closing
    bracket; behind them, perhaps after blanks, there is a sequence field with the digits `found.2`. -/
def IsFlagList (t : Text) (found : Text × Text) : Prop :=
  ∃ gap field, t = '[' :: (found.1 ++ ']' :: (gap ++ field)) ∧ found.1 ≠ [] ∧ ']' ∉ found.1 ∧
    isAllBlank gap = true ∧ IsSeqField field found.2

/-- Where a list ends: at the first closing bracket. -/
theorem closedList_iff {rest list after : Text} :
    rest.takeWhile (· != ']') = list ∧ [']'].isPrefixOf? (rest.dropWhile (· != ']')) = some after ↔
      rest = list ++ ']' :: after ∧ ']' ∉ list := by
  have hother : (∀ c ∈ list, (c != ']') = true) ↔ ']' ∉ list := by
    simp only [bne_iff_ne]
    exact ⟨fun h hmem => h _ hmem rfl, fun h c hc heq => h (heq ▸ hc)⟩
  rw [List.isPrefixOf?_eq_some_iff_append_eq, ← hother]
  constructor
  · rintro ⟨hlist, hafter⟩
    obtain ⟨heq, hlist, -⟩ := run_iff.mp ⟨hlist, hafter.symm⟩
    exact ⟨heq, hlist⟩
  · rintro ⟨heq, hlist⟩
    have hrun := run_iff.mpr ⟨heq, hlist, fun c hc => by cases hc; rfl⟩
    exact ⟨hrun.1, hrun.2.symm⟩

theorem flagListAt?_eq_some_iff (t : Text) (found : Text × Text) :
    flagListAt? t = some found ↔ IsFlagList t found := by
  obtain ⟨list, digits⟩ := found
  constructor
  · intro h
    unfold flagListAt? at h
    split at h
    · rename_i rest
      obtain ⟨after, hafter, h⟩ := Option.bind_eq_some_iff.mp h
      split at h
      · cases h
      · rename_i hne
        obtain ⟨field, hfield, heq⟩ := Option.bind_eq_some_iff.mp h
        cases heq
        obtain ⟨gap, hgap, hblank, -⟩ := skipBlank_eq_iff.mp (rfl : skipBlank after = skipBlank after)
        obtain ⟨heq, hlist⟩ := closedList_iff.mp ⟨rfl, hafter⟩
        refine ⟨gap, skipBlank after, ?_, by simpa using hne, hlist, hblank,
          (seqFieldAt?_eq_some_iff _ _).mp hfield⟩
        rw [← hgap]
        exact congrArg ('[' :: ·) heq
    · cases h
  · rintro ⟨gap, field, rfl, hne, hlist, hgap, hfield⟩
    obtain ⟨htake, hdrop⟩ := closedList_iff.mpr ⟨rfl, hlist⟩
    have hskip : skipBlank (gap ++ field) = field :=
      skipBlank_eq_iff.mpr ⟨gap, rfl, hgap, hfield.not_blank⟩
    rw [flagListAt?, htake, hdrop]
    show (if list.isEmpty = true then none else _) = _
    rw [if_neg (by simpa using hne), hskip, (seqFieldAt?_eq_some_iff _ _).mpr hfield]
    rfl

/-- The text begins with the digits of a number, behind which stand an angle bracket and a digit, perhaps with
    blanks around the bracket. -/
def IsPortPair (t digits : Text) : Prop :=
  ∃ gap gap' d rest, t = digits ++ (gap ++ '>' :: (gap' ++ d :: rest)) ∧ Digits digits ∧
    isAllBlank gap = true ∧ isAllBlank gap' = true ∧ d.isDigit = true

/-- Digits in front of a pair of ports belong to its first number. -/
theorem IsPortPair.append {run t digits : Text} (h : IsPortPair t digits)
    (hrun : ∀ c ∈ run, c.isDigit = true) : IsPortPair (run ++ t) (run ++ digits) := by
  obtain ⟨gap, gap', d, rest, rfl, hdigits, hgap, hgap', hd⟩ := h
  exact ⟨gap, gap', d, rest, by rw [List.append_assoc], hdigits.behind hrun, hgap, hgap', hd⟩

/-- The number at the first bracketed list with a sequence field behind it, with the flags that the words between
    the bars name. Words that name no flag are left out. -/
def ByFlagList (line : Text) (m : SeqMatch) : Prop :=
  ∃ before list digits words, FirstPlace (fun _ => True) IsFlagList line before (list, digits) ∧
    value digits < 2 ^ 64 ∧
    words ≠ [] ∧ (∀ word ∈ words, '|' ∉ word) ∧ list = join ['|'] words ∧
    m = ⟨value digits, words.filterMap Flag.parse?, .flagList⟩

theorem word?_eq_some_iff {digits : Text} {n : Nat} :
    word? digits = some n ↔ value digits < 2 ^ 64 ∧ n = value digits := by
  have hmax : value digits ≤ maxWord ↔ value digits < 2 ^ 64 := by
    rw [maxWord]
    omega
  rw [word?, Option.ite_none_right_eq_some, hmax, Option.some.injEq, eq_comm (a := n)]

theorem ofFlagList?_eq_some_iff {line : Text} {m : SeqMatch} :
    ofFlagList? line = some m ↔ ByFlagList line m := by
  simp only [ofFlagList?, ByFlagList, Option.bind_eq_bind, Option.bind_eq_some_iff, Option.pure_def,
    Option.some.injEq, Prod.exists, leftmost_eq_some_iff flagListAt?_eq_some_iff, word?_eq_some_iff]
  constructor
  · rintro ⟨list, digits, ⟨before, hbefore⟩, _, ⟨hword, rfl⟩, rfl⟩
    exact ⟨before, list, digits, split '|' list, hbefore, hword, split_ne_nil '|' list,
      fun word hmem => not_mem_of_mem_split hmem, (join_split '|' list).symm, rfl⟩
  · rintro ⟨before, list, digits, words, hbefore, hword, hne, hwords, rfl, rfl⟩
    refine ⟨_, digits, ⟨before, hbefore⟩, _, ⟨hword, rfl⟩, ?_⟩
    rw [Flag.parseList, split_join hne hwords]

/-- The first sequence field holds no word, so the ports have their turn and the second field has not. -/
example : ofLine "Seq=18446744073709551616 TcpHeader (5 > 6) Seq=7".toList = ⟨5, [], .headerPorts⟩ := by
  decide +kernel

end SeqMatch
end PacketTrace

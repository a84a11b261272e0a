import Mathlib
import PacketTrace.Proofs.Event.Sequence
import PacketTrace.Proofs.Text.Lines

/-!
# `Proofs.Event.FlagList` — flags that are written into a line are read back

A list of flags is cut at its bars and each word is read on its own, so a word has no effect on the words next
to it, whether it names a flag or not (`parseList_append`). A word names a flag in whatever case its letters
are and with whatever blanks around it (`parse?_of_isSpelling`): blanks are trimmed, and on the letters of a
name the full upper case is that of ASCII. What spells a flag holds no bar and no bracket, so neither the list
nor the brackets around it end too early.

In a line, the list that counts is the first one with a sequence field behind it. If no bracket is opened
before, nothing before can take its place, though it may hold a sequence field or a header of its own
(`SeqMatch.ofLine_of_isFlagList`).

## Contents
- **Lists of words.** `Flag.parseList_append`, `Flag.parseList_of_not_mem` and `Flag.parseList_join`.
- **Spellings.** `Flag.IsSpelling`, and how a flag that is spelled is read.
- **Lines.** `SeqMatch.ofLine_of_isFlagList`.
- **Both.** `Flag.spelled_list_read_back`.
-/

namespace PacketTrace

namespace Flag

open Text

/-! ## Lists of words -/

/-- **A bar cuts a list wherever it stands**, and each part is read as if it stood alone. -/
theorem parseList_append (a b : Text) : parseList (a ++ '|' :: b) = parseList a ++ parseList b := by
  unfold parseList
  rw [split_append_cons, List.filterMap_append]

/-- A word without a bar gives the flag that it names, or nothing. -/
theorem parseList_of_not_mem {word : Text} (h : '|' ∉ word) : parseList word = (parse? word).toList := by
  unfold parseList
  rw [split_of_not_mem h, List.filterMap_cons, List.filterMap_nil]
  cases parse? word with
  | none => rfl
  | some f => rfl

/-- Words with bars between them are read one by one. -/
theorem parseList_join {words : List Text} (h : ∀ word ∈ words, '|' ∉ word) :
    parseList (join ['|'] words) = words.filterMap parse? := by
  cases words with
  | nil => rfl
  | cons word words =>
    unfold parseList
    rw [split_join (List.cons_ne_nil word words) h]

/-! ## Spellings -/

/-- The character is the letter, or the same letter in lower case. -/
def IsCaseOf (letter c : Char) : Prop := c = letter ∨ c = letter.toLower

instance (letter c : Char) : Decidable (IsCaseOf letter c) :=
  inferInstanceAs (Decidable (_ ∨ _))

/-- The text spells the flag: it is the name of the flag, each letter in upper or lower case, perhaps with
    blanks before and behind it. -/
def IsSpelling (f : Flag) (token : Text) : Prop :=
  ∃ before word after, token = before ++ word ++ after ∧ isAllBlank before = true ∧
    isAllBlank after = true ∧ List.Forall₂ IsCaseOf f.name word

theorem isUpper_of_mem_name {f : Flag} {letter : Char} (h : letter ∈ f.name) : letter.isUpper = true := by
  have hname : f.name.all Char.isUpper = true := by cases f <;> rfl
  exact List.all_eq_true.mp hname letter h

section Letters

variable {letter c : Char}

theorem toNat_of_isAlpha (h : c.isAlpha = true) :
    65 ≤ c.toNat ∧ c.toNat ≤ 90 ∨ 97 ≤ c.toNat ∧ c.toNat ≤ 122 := by
  simpa [Char.isAlpha, Char.isUpper, Char.isLower, UInt32.le_iff_toNat_le] using h

/-- A letter is not blank. -/
theorem isBlank_of_isAlpha (h : c.isAlpha = true) : isBlank c = false := by
  have hrange := toNat_of_isAlpha h
  rw [Bool.eq_false_iff]
  intro hblank
  simp only [isBlank, Bool.or_eq_true, Bool.and_eq_true, decide_eq_true_eq, beq_iff_eq] at hblank
  omega

theorem IsCaseOf.isAlpha (h : IsCaseOf letter c) (hletter : letter.isUpper = true) : c.isAlpha = true := by
  have halpha : letter.isAlpha = true := by rw [Char.isAlpha, hletter, Bool.true_or]
  rcases h with rfl | rfl
  · exact halpha
  · rw [Char.isAlpha_toLower_eq_isAlpha, halpha]

/-- The full upper case of a letter is that of ASCII. -/
theorem IsCaseOf.upperOf_eq (h : IsCaseOf letter c) (hletter : letter.isUpper = true) : upperOf c = [letter] := by
  have hascii : c.toNat < 0x80 := by
    have hrange := toNat_of_isAlpha (h.isAlpha hletter)
    omega
  have hself : letter.toUpper = letter :=
    Char.toUpper_eq_of_not_isLower (Char.not_isLower_of_isUpper hletter)
  have hupper : c.toUpper = letter := by
    rcases h with rfl | rfl
    · exact hself
    · rw [Char.toUpper_toLower_eq_toUpper, hself]
  rw [upperOf, if_pos hascii, hupper]

end Letters

section Names

variable {name word : Text}

/-- What spells a name consists of letters. -/
theorem isAlpha_of_forall₂ (h : List.Forall₂ IsCaseOf name word)
    (hname : ∀ letter ∈ name, letter.isUpper = true) : ∀ c ∈ word, c.isAlpha = true := by
  induction h with
  | nil => exact fun c hc => absurd hc List.not_mem_nil
  | cons hfirst _ ih =>
    rw [List.forall_mem_cons] at hname ⊢
    exact ⟨hfirst.isAlpha hname.1, ih hname.2⟩

/-- The upper case of what spells a name is the name. -/
theorem uppercase_of_forall₂ (h : List.Forall₂ IsCaseOf name word)
    (hname : ∀ letter ∈ name, letter.isUpper = true) : uppercase word = name := by
  unfold uppercase
  induction h with
  | nil => rfl
  | cons hfirst _ ih =>
    rw [List.forall_mem_cons] at hname
    rw [List.flatMap_cons, hfirst.upperOf_eq hname.1, ih hname.2, List.singleton_append]

end Names

variable {f : Flag} {token : Text}

/-- **A flag that is spelled is read**, whatever the case of its letters and whatever blanks are around it. -/
theorem parse?_of_isSpelling (h : IsSpelling f token) : parse? token = some f := by
  obtain ⟨before, word, after, rfl, hbefore, hafter, hword⟩ := h
  have hname : ∀ letter ∈ f.name, letter.isUpper = true := fun _ => isUpper_of_mem_name
  have hblank : IsWord word := fun c hc => isBlank_of_isAlpha (isAlpha_of_forall₂ hword hname c hc)
  rw [parse?, normalise, trim_padded hbefore hblank hafter, uppercase_of_forall₂ hword hname, ofName?_name]

/-- What spells a flag consists of blanks and letters. -/
theorem IsSpelling.blank_or_letter (h : IsSpelling f token) :
    ∀ c ∈ token, isBlank c = true ∨ c.isAlpha = true := by
  obtain ⟨before, word, after, rfl, hbefore, hafter, hword⟩ := h
  intro c hc
  rw [List.mem_append, List.mem_append] at hc
  rcases hc with (hc | hc) | hc
  · exact .inl (forall_isBlank hbefore c hc)
  · exact .inr (isAlpha_of_forall₂ hword (fun _ => isUpper_of_mem_name) c hc)
  · exact .inl (forall_isBlank hafter c hc)

/-- What is neither blank nor a letter does not occur in it. -/
theorem IsSpelling.not_mem (h : IsSpelling f token) {c : Char} (hblank : isBlank c = false)
    (halpha : c.isAlpha = false) : c ∉ token := by
  intro hmem
  rcases h.blank_or_letter c hmem with hc | hc
  · rw [hblank] at hc
    cases hc
  · rw [halpha] at hc
    cases hc

section Lists

variable {flags : List Flag} {tokens : List Text}

/-- Nothing that is neither blank nor a letter occurs in the words of a list. -/
theorem not_mem_of_forall₂ (h : List.Forall₂ IsSpelling flags tokens) {c : Char}
    (hblank : isBlank c = false) (halpha : c.isAlpha = false) : ∀ token ∈ tokens, c ∉ token := by
  induction h with
  | nil => exact fun token hmem => absurd hmem List.not_mem_nil
  | cons hfirst _ ih => exact List.forall_mem_cons.mpr ⟨hfirst.not_mem hblank halpha, ih⟩

/-- **A list of spelled flags is read**, in order and with repetitions. -/
theorem parseList_of_forall₂ (h : List.Forall₂ IsSpelling flags tokens) :
    parseList (join ['|'] tokens) = flags := by
  rw [parseList_join (not_mem_of_forall₂ h (by decide) (by decide))]
  induction h with
  | nil => rfl
  | cons hfirst _ ih => rw [List.filterMap_cons_some (parse?_of_isSpelling hfirst), ih]

end Lists

end Flag

/-! ## Lines -/

namespace SeqMatch

open Numeral Text

/-- **The first list of a line.** Where no bracket was opened before, a list with a sequence field behind it gives
    the flags and the number of the line. -/
theorem ofLine_of_isFlagList {before there list digits : Text} (hbefore : '[' ∉ before)
    (hthere : IsFlagList there (list, digits)) (hword : value digits < 2 ^ 64) :
    ofLine (before ++ there) = ⟨value digits, Flag.parseList list, .flagList⟩ := by
  have hmark : ∀ t found, IsFlagList t found → t.head? = some '[' := by
    rintro t found ⟨gap, field, rfl, -⟩
    rfl
  have hrule : ByFlagList (before ++ there) ⟨value digits, Flag.parseList list, .flagList⟩ :=
    ⟨before, list, digits, split '|' list, firstPlace_of_mark hmark hbefore hthere, hword,
      split_ne_nil '|' list, fun _ hmem => not_mem_of_mem_split hmem, (join_split '|' list).symm, rfl⟩
  rw [ofLine, ofFlagList?_eq_some_iff.mpr hrule]

/-- A list in brackets with the digits of a number behind it. -/
theorem isFlagList_decimal {list : Text} (hne : list ≠ []) (hlist : ']' ∉ list) (n : Nat) :
    IsFlagList ("[".toList ++ list ++ "] Seq=".toList ++ decimal n) (list, decimal n) := by
  refine ⟨[' '], "Seq=".toList ++ decimal n, ?_, hne, hlist, by decide, [], ?_, digits_decimal n, ?_⟩
  · simp
  · rw [List.append_nil]
  · exact fun c hc => absurd hc (by simp)

end SeqMatch

/-! ## Both -/

namespace Flag

open Text

/-- **Flag lists survive the trip through a line.** Two lists with a bar between them are read one after the other,
    and a word without a bar gives the flag it names or nothing. So the words that spell some flags, with bars
    between them, give these flags, in order and with repetitions. In brackets, behind any text that opens none
    and in front of a sequence field with a 64-bit number, they give the flags and the number of the line. -/
theorem spelled_list_read_back :
    (∀ a b, parseList (a ++ "|".toList ++ b) = parseList a ++ parseList b) ∧
    (∀ word, '|' ∉ word → parseList word = (parse? word).toList) ∧
    ∀ (flags : List Flag) (tokens : List Text), List.Forall₂ IsSpelling flags tokens →
      parseList (join "|".toList tokens) = flags ∧
      (flags ≠ [] → ∀ (before : Text) (n : Nat), '[' ∉ before → n < 2 ^ 64 →
        let line := before ++ "[".toList ++ join "|".toList tokens ++ "] Seq=".toList ++ Numeral.decimal n
        SeqMatch.ofLine line = ⟨n, flags, .flagList⟩) := by
  refine ⟨fun a b => ?_, fun word => parseList_of_not_mem, fun flags tokens h => ?_⟩
  · rw [List.append_assoc]
    exact parseList_append a b
  have hread : parseList (join "|".toList tokens) = flags := parseList_of_forall₂ h
  refine ⟨hread, ?_⟩
  intro hflags before n hbefore hn line
  have hne : join "|".toList tokens ≠ [] := by
    intro hnil
    rw [hnil] at hread
    exact hflags hread.symm
  have hclose : ']' ∉ join "|".toList tokens := by
    intro hmem
    rcases mem_join hmem with hbar | ⟨token, htoken, hin⟩
    · exact absurd hbar (by decide)
    · exact not_mem_of_forall₂ h (by decide) (by decide) token htoken hin
  have hvalue : Numeral.value (Numeral.decimal n) = n := Nat.ofDigitChars_ten_toDigits
  have hline : line = before ++
      ("[".toList ++ join "|".toList tokens ++ "] Seq=".toList ++ Numeral.decimal n) := by
    simp only [line, List.append_assoc]
  rw [hline, SeqMatch.ofLine_of_isFlagList hbefore (SeqMatch.isFlagList_decimal hne hclose n)
    (hvalue.symm ▸ hn), hvalue, hread]

/-- Four words in mixed case with blanks of several kinds, one flag listed twice, behind a header, a sequence
    field and a closing bracket; the number is the largest word. -/
theorem mixed_spellings_read_back :
    let flags := [psh, syn, ack, syn]
    let tokens := ["pSh\t".toList, " Syn".toList, "\u2003ACK\n".toList, "syn".toList]
    let before := "TcpHeader (5 > 6) Seq=7] ".toList
    List.Forall₂ IsSpelling flags tokens ∧ '[' ∉ before ∧
      parseList "pSh\t| Syn|\u2003ACK\n|syn".toList = flags ∧
      SeqMatch.ofLine
          "TcpHeader (5 > 6) Seq=7] [pSh\t| Syn|\u2003ACK\n|syn] Seq=18446744073709551615".toList =
        ⟨18446744073709551615, flags, .flagList⟩ := by
  intro flags tokens before
  have hspelled : List.Forall₂ IsSpelling flags tokens :=
    .cons ⟨[], "pSh".toList, "\t".toList, by decide⟩
      (.cons ⟨" ".toList, "Syn".toList, [], by decide⟩
        (.cons ⟨"\u2003".toList, "ACK".toList, "\n".toList, by decide⟩
          (.cons ⟨[], "syn".toList, [], by decide⟩ .nil)))
  have hbefore : '[' ∉ before := by decide
  obtain ⟨-, -, hlists⟩ := spelled_list_read_back
  obtain ⟨hlist, hline⟩ := hlists flags tokens hspelled
  refine ⟨hspelled, hbefore, hlist, ?_⟩
  exact hline (List.cons_ne_nil _ _) before 18446744073709551615 hbefore (by decide)

end Flag

end PacketTrace

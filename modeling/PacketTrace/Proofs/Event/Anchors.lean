import PacketTrace.Event.Anchors
import PacketTrace.Proofs.Float.Magnitude
import PacketTrace.Proofs.Text.Search

/-!
# `Proofs.Event.Anchors` — which lines have the mandatory fields

A trace line is an event symbol, a time, a node and a length, with other text between the last two and behind
them (`TraceLine`). Such a line can be taken apart up to the slash behind its node in one way only
(`front?_eq_some_iff`): each part ends where a character follows that cannot belong to it. From there on
there may be several length fields, and the last one on the same line of text counts.

How large the numbers are plays no part in any of this, so no line is refused for the size of a number. The
time is the only field that may be rounded (`isRounded_seconds`); the other two numbers are capped.

## Contents
- **Readers.** The texts on which the readers of single fields succeed.
- **The front.** `front?` reads everything up to the slash behind the node, and `ofLine?_eq` goes on from
  there.
- **Times.** `isRounded_seconds`: the float of a time and the number that its digits denote.
- **Trace lines.** `TraceLine` and `TraceLine.Spells`.
- **Fields.** `ofLine?_fields`: the lines that are accepted, and what is read from them.
-/

namespace PacketTrace
namespace Anchors

open Numeral Text

/-! ## Readers -/

/-- One blank character or more. -/
structure Blanks (gap : Text) : Prop where
  ne_nil : gap ≠ []
  isAllBlank : isAllBlank gap = true

theorem Blanks.not_digit {gap : Text} (h : Blanks gap) (rest : Text) :
    ∀ c ∈ (gap ++ rest).head?, c.isDigit = false := by
  intro c hc
  cases gap with
  | nil => exact absurd rfl h.ne_nil
  | cons d gap =>
    cases hc
    exact isDigit_of_isBlank (isAllBlank_cons.mp h.isAllBlank).1

theorem afterBlanks?_eq_some_iff {t rest : Text} :
    afterBlanks? t = some rest ↔
      ∃ gap, t = gap ++ rest ∧ Blanks gap ∧ ∀ c ∈ rest.head?, isBlank c = false := by
  constructor
  · intro h
    cases t with
    | nil => cases h
    | cons c t =>
      rw [afterBlanks?] at h
      split at h
      · rename_i hc
        obtain ⟨gap, rfl, hgap, hrest⟩ := skipBlank_eq_iff.mp (Option.some.inj h)
        exact ⟨c :: gap, rfl, ⟨List.cons_ne_nil c gap, isAllBlank_cons.mpr ⟨hc, hgap⟩⟩, hrest⟩
      · cases h
  · rintro ⟨gap, rfl, ⟨hne, hgap⟩, hrest⟩
    cases gap with
    | nil => exact absurd rfl hne
    | cons c gap =>
      obtain ⟨hc, hgap⟩ := isAllBlank_cons.mp hgap
      rw [List.cons_append, afterBlanks?, if_pos hc, skipBlank_eq_iff.mpr ⟨gap, rfl, hgap, hrest⟩]

theorem ofSymbol?_eq_some_iff {c : Char} {kind : EventKind} :
    EventKind.ofSymbol? c = some kind ↔ c = kind.symbol := by
  constructor
  · intro h
    unfold EventKind.ofSymbol? at h
    split at h <;> cases h <;> rfl
  · rintro rfl
    exact EventKind.ofSymbol?_symbol kind

/-- A length field takes all the digits behind it. -/
theorem lengthAt?_eq_some_iff {t digits : Text} :
    lengthAt? t = some digits ↔
      ∃ gap rest, t = lengthMark ++ (gap ++ (digits ++ rest)) ∧ isAllBlank gap = true ∧ Digits digits ∧
        ∀ c ∈ rest.head?, c.isDigit = false := by
  simp only [lengthAt?, Option.bind_eq_bind, Option.bind_eq_some_iff, Option.pure_def, Option.some.injEq,
    Prod.exists, List.isPrefixOf?_eq_some_iff_append_eq, leadingDigits?_eq_some_iff]
  constructor
  · rintro ⟨_, rfl, _, rest, ⟨hskip, hdigits, hrest⟩, rfl⟩
    obtain ⟨gap, rfl, hgap, -⟩ := skipBlank_eq_iff.mp hskip
    exact ⟨gap, rest, rfl, hgap, hdigits, hrest⟩
  · rintro ⟨gap, rest, rfl, hgap, hdigits, hrest⟩
    exact ⟨_, rfl, digits, rest,
      ⟨skipBlank_eq_iff.mpr ⟨gap, rfl, hgap, not_blank_of_digits hdigits rest⟩, hdigits, hrest⟩, rfl⟩

/-- With more digits behind it a length field is still a length field. -/
theorem isSome_lengthAt? {gap digits : Text} (hgap : isAllBlank gap = true) (hdigits : Digits digits)
    (rest : Text) : (lengthAt? (lengthMark ++ (gap ++ (digits ++ rest)))).isSome = true := by
  obtain ⟨⟨all, behind⟩, hall⟩ := exists_leadingDigits? hdigits rest
  obtain ⟨heq, hall, hbehind⟩ := leadingDigits?_eq_some_iff.mp hall
  rw [heq, lengthAt?_eq_some_iff.mpr ⟨gap, behind, rfl, hgap, hall, hbehind⟩]
  rfl

/-! ## The front -/

/-- What a line holds up to the slash behind its node, and what comes after it. -/
structure Front where
  kind : EventKind
  whole : Text
  fraction : Text
  node : Text
  tail : Text

/-- The front of a line, if it has one. -/
def front? : Text → Option Front
  | [] => none
  | symbol :: rest => do
    let kind ← EventKind.ofSymbol? symbol
    let rest ← afterBlanks? rest
    let (whole, rest) ← leadingDigits? rest
    let rest ← ['.'].isPrefixOf? rest
    let (fraction, rest) ← leadingDigits? rest
    let rest ← afterBlanks? rest
    let rest ← nodeMark.isPrefixOf? rest
    let (node, rest) ← leadingDigits? rest
    let tail ← ['/'].isPrefixOf? rest
    return { kind, whole, fraction, node, tail }

/-- The fields of a line with this front and the digits of its length. -/
def Front.anchors (f : Front) (size : Text) : Anchors :=
  { kind := f.kind, time := seconds f.whole f.fraction, nodeId := cappedValue f.node,
    packetSize := cappedValue size }

theorem ofLine?_eq (line : Text) :
    ofLine? line = (front? line).bind fun f => (lastInLine lengthAt? none f.tail).map f.anchors := by
  cases line with
  | nil => rfl
  | cons symbol rest =>
    simp only [ofLine?, front?, Option.bind_eq_bind, Option.bind_assoc, Option.pure_def, Option.bind_some,
      Option.map_eq_bind]
    rfl

/-- **A line has one front at most**, and it has one if it begins so. -/
theorem front?_eq_some_iff {line : Text} {f : Front} :
    front? line = some f ↔
      ∃ timeGap nodeGap, Blanks timeGap ∧ Digits f.whole ∧ Digits f.fraction ∧ Blanks nodeGap ∧
        Digits f.node ∧
        line = f.kind.symbol :: (timeGap ++ (f.whole ++ ('.' :: (f.fraction ++ (nodeGap ++
          (nodeMark ++ (f.node ++ ('/' :: f.tail)))))))) := by
  cases line with
  | nil => simp [front?]
  | cons symbol rest =>
    simp only [front?, Option.bind_eq_bind, Option.bind_eq_some_iff, Option.pure_def, Option.some.injEq,
      Prod.exists, ofSymbol?_eq_some_iff, afterBlanks?_eq_some_iff, leadingDigits?_eq_some_iff,
      List.isPrefixOf?_eq_some_iff_append_eq]
    constructor
    · rintro ⟨kind, rfl, _, ⟨timeGap, rfl, htimeGap, -⟩, whole, _, ⟨rfl, hwhole, -⟩, _, rfl, fraction, _,
        ⟨rfl, hfraction, -⟩, _, ⟨nodeGap, rfl, hnodeGap, -⟩, _, rfl, node, _, ⟨rfl, hnode, -⟩, tail, rfl,
        rfl⟩
      exact ⟨timeGap, nodeGap, htimeGap, hwhole, hfraction, hnodeGap, hnode, rfl⟩
    · -- each part is followed by a character that ends it
      rintro ⟨timeGap, nodeGap, htimeGap, hwhole, hfraction, hnodeGap, hnode, heq⟩
      cases heq
      exact ⟨f.kind, rfl, _, ⟨timeGap, rfl, htimeGap, not_blank_of_digits hwhole _⟩, f.whole, _,
        ⟨rfl, hwhole, fun c hc => by cases hc; rfl⟩, _, rfl, f.fraction, _,
        ⟨rfl, hfraction, hnodeGap.not_digit _⟩, _, ⟨nodeGap, rfl, hnodeGap, fun c hc => by cases hc; rfl⟩,
        _, rfl, f.node, _, ⟨rfl, hnode, fun c hc => by cases hc; rfl⟩, f.tail, rfl, rfl⟩

/-! ## Times -/

theorem value_append (s t : Text) : value (s ++ t) = 10 ^ t.length * value s + value t := by
  unfold value
  rw [Nat.ofDigitChars_append, Nat.ofDigitChars_eq_ofDigitChars_zero]

/-- The number that the digits of a time denote, before and after the point. -/
def timeValue (whole fraction : Text) : ℚ := value whole + value fraction / 10 ^ fraction.length

/-- **The time is the number that its digits denote**, rounded to a float if it is below the largest one. -/
theorem isRounded_seconds {whole fraction : Text} (hlt : timeValue whole fraction < largest) :
    IsRounded (floatMagnitude? (seconds whole fraction)) (timeValue whole fraction) := by
  have hvalue : timeValue whole fraction = (value (whole ++ fraction) : ℚ) / 10 ^ fraction.length := by
    unfold timeValue
    rw [value_append]
    push_cast
    field_simp
  rw [hvalue] at hlt ⊢
  exact isRounded_ofScientific hlt

end Anchors

/-! ## Trace lines -/

/-- The parts of a trace line, from left to right. -/
structure TraceLine where
  /-- The first character is the symbol of this kind. -/
  kind : EventKind
  timeGap : Text
  /-- The digits of the time before and after the point. -/
  whole : Text
  fraction : Text
  nodeGap : Text
  /-- The digits of the node. -/
  node : Text
  /-- What stands between the slash behind the node and the word in front of the length. -/
  between : Text
  lengthGap : Text
  /-- Digits of the length. -/
  length : Text
  /-- What follows; more digits may. -/
  rest : Text

namespace TraceLine

open Numeral Text Anchors

/-- The line with these parts; `/NodeList/` stands in front of the node and `length:` in front of the
    length. -/
def text (l : TraceLine) : Text :=
  [l.kind.symbol] ++ l.timeGap ++ l.whole ++ ['.'] ++ l.fraction ++ l.nodeGap ++ nodeMark ++ l.node ++
    ['/'] ++ l.between ++ lengthMark ++ l.lengthGap ++ l.length ++ l.rest

/-- The parts are what they are meant to be. The two gaps around the time are needed, the one in front of the
    length is not. -/
structure WellFormed (l : TraceLine) : Prop where
  timeGap : Blanks l.timeGap
  whole : Digits l.whole
  fraction : Digits l.fraction
  nodeGap : Blanks l.nodeGap
  node : Digits l.node
  between : '\n' ∉ l.between
  lengthGap : isAllBlank l.lengthGap = true
  length : Digits l.length

/-- A way to take a line apart. -/
def Spells (l : TraceLine) (line : Text) : Prop := l.WellFormed ∧ line = l.text

/-- What stands behind the slash after the node. -/
def tail (l : TraceLine) : Text :=
  l.between ++ (lengthMark ++ (l.lengthGap ++ (l.length ++ l.rest)))

variable {l : TraceLine} {line : Text}

theorem text_eq (l : TraceLine) :
    l.text = l.kind.symbol :: (l.timeGap ++ (l.whole ++ ('.' :: (l.fraction ++ (l.nodeGap ++
      (nodeMark ++ (l.node ++ ('/' :: l.tail)))))))) := by
  simp only [text, tail, List.append_assoc, List.cons_append, List.nil_append]

/-- However a line is taken apart, its front is the same. -/
theorem Spells.front? (h : l.Spells line) :
    Anchors.front? line = some ⟨l.kind, l.whole, l.fraction, l.node, l.tail⟩ := by
  obtain ⟨hparts, rfl⟩ := h
  exact front?_eq_some_iff.mpr ⟨l.timeGap, l.nodeGap, hparts.timeGap, hparts.whole, hparts.fraction,
    hparts.nodeGap, hparts.node, l.text_eq⟩

/-- Behind the front there is a length field. -/
theorem Spells.exists_length (h : l.Spells line) :
    ∃ there, Reaches l.tail l.between there ∧ (lengthAt? there).isSome = true :=
  ⟨lengthMark ++ (l.lengthGap ++ (l.length ++ l.rest)), ⟨rfl, h.1.between⟩,
    isSome_lengthAt? h.1.lengthGap h.1.length l.rest⟩

/-- A line with a front and a length field behind it can be taken apart there. -/
theorem exists_spells {f : Front} (hfront : Anchors.front? line = some f) {between there digits : Text}
    (hreach : Reaches f.tail between there) (hlength : lengthAt? there = some digits) :
    ∃ l : TraceLine, l.Spells line ∧ l.between = between ∧ l.length = digits ∧
      ∀ c ∈ l.rest.head?, c.isDigit = false := by
  obtain ⟨timeGap, nodeGap, htimeGap, hwhole, hfraction, hnodeGap, hnode, hline⟩ :=
    front?_eq_some_iff.mp hfront
  obtain ⟨gap, rest, rfl, hgap, hdigits, hrest⟩ := lengthAt?_eq_some_iff.mp hlength
  obtain ⟨htail, hbetween⟩ := hreach
  let l : TraceLine :=
    { kind := f.kind, timeGap, whole := f.whole, fraction := f.fraction, nodeGap, node := f.node,
      between, lengthGap := gap, length := digits, rest }
  have hparts : l.WellFormed :=
    ⟨htimeGap, hwhole, hfraction, hnodeGap, hnode, hbetween, hgap, hdigits⟩
  refine ⟨l, ⟨hparts, ?_⟩, rfl, rfl, hrest⟩
  rw [hline, htail]
  exact l.text_eq.symm

end TraceLine

/-! ## Fields -/

namespace Anchors

open Numeral Text

/-- **The mandatory fields of a line.** A line has them exactly if it can be taken apart as a trace line,
    however large its numbers are. The kind, the time and the node are then those of any way to do so; a time below
    the largest float is the number that its digits denote, but for rounding. The length is that of the last way,
    with all the digits that stand there. Node and length are capped at the largest word. -/
theorem ofLine?_fields (line : Text) :
    ((ofLine? line).isSome = true ↔ ∃ l : TraceLine, l.Spells line) ∧
    ∀ a, ofLine? line = some a →
      (∀ l : TraceLine, l.Spells line →
        a.kind = l.kind ∧ a.time = seconds l.whole l.fraction ∧
          (timeValue l.whole l.fraction < largest →
            IsRounded (floatMagnitude? a.time) (timeValue l.whole l.fraction)) ∧
          a.nodeId = min (value l.node) (2 ^ 64 - 1)) ∧
      ∃ l : TraceLine, l.Spells line ∧ (∀ c ∈ l.rest.head?, c.isDigit = false) ∧
        (∀ l' : TraceLine, l'.Spells line → l'.between.length ≤ l.between.length) ∧
        a.packetSize = min (value l.length) (2 ^ 64 - 1) := by
  have hread : ∀ a, ofLine? line = some a ↔
      ∃ f, front? line = some f ∧ ∃ size, lastInLine lengthAt? none f.tail = some size ∧
        f.anchors size = a := by
    intro a
    rw [ofLine?_eq, Option.bind_eq_some_iff]
    simp only [Option.map_eq_some_iff]
  refine ⟨⟨fun h => ?_, ?_⟩, fun a ha => ?_⟩
  · obtain ⟨a, ha⟩ := Option.isSome_iff_exists.mp h
    obtain ⟨f, hfront, size, hsize, -⟩ := (hread a).mp ha
    obtain ⟨between, there, hreach, hlength, -⟩ := lastInLine_eq_some hsize
    obtain ⟨l, hl, -⟩ := TraceLine.exists_spells hfront hreach hlength
    exact ⟨l, hl⟩
  · rintro ⟨l, hl⟩
    obtain ⟨there, hreach, hlength⟩ := hl.exists_length
    cases hsize : lastInLine lengthAt? none l.tail with
    | none =>
      rw [lastInLine_eq_none_iff.mp hsize _ _ hreach] at hlength
      cases hlength
    | some size => exact Option.isSome_iff_exists.mpr ⟨_, (hread _).mpr ⟨_, hl.front?, size, hsize, rfl⟩⟩
  · obtain ⟨f, hfront, size, hsize, rfl⟩ := (hread a).mp ha
    constructor
    · intro l hl
      cases hfront.symm.trans hl.front?
      exact ⟨rfl, rfl, isRounded_seconds, rfl⟩
    · obtain ⟨between, there, hreach, hlength, hlast⟩ := lastInLine_eq_some hsize
      obtain ⟨l, hl, rfl, rfl, hrest⟩ := TraceLine.exists_spells hfront hreach hlength
      refine ⟨l, hl, hrest, fun l' hl' => ?_, rfl⟩
      obtain ⟨there', hreach', hlength'⟩ := hl'.exists_length
      cases hfront.symm.trans hl'.front?
      exact hlast _ there' hreach' hlength'

/-- A line with a time of two digits and one more, a node above all words and three length fields, the last of which
has no digits. -/
theorem fields_of_sample_line :
    let line := "r 12.5 /NodeList/18446744073709551616/x length: 20 (length:536) length: none".toList
    ∃ a, ofLine? line = some a ∧ a.kind = .receive ∧ floatMagnitude? a.time = some (25 / 2) ∧
      a.nodeId = 18446744073709551615 ∧ a.packetSize = 536 := by
  intro line
  let l : TraceLine :=
    { kind := .receive, timeGap := [' '], whole := "12".toList, fraction := ['5'], nodeGap := [' ']
      node := "18446744073709551616".toList, between := "x length: 20 (".toList, lengthGap := []
      length := "536".toList, rest := ") length: none".toList }
  have hdigits {ds : Text} (hne : ds ≠ []) (hall : ds.all Char.isDigit = true) : Digits ds :=
    ⟨hne, List.all_eq_true.mp hall⟩
  have hparts : l.WellFormed :=
    { timeGap := ⟨by decide, rfl⟩, whole := hdigits (by decide) rfl, fraction := hdigits (by decide) rfl
      nodeGap := ⟨by decide, rfl⟩, node := hdigits (by decide) rfl, between := by decide
      lengthGap := rfl, length := hdigits (by decide) rfl }
  have hspells : l.Spells line := ⟨hparts, rfl⟩
  obtain ⟨haccepted, hfields⟩ := ofLine?_fields line
  obtain ⟨a, ha⟩ := Option.isSome_iff_exists.mp (haccepted.mpr ⟨l, hspells⟩)
  obtain ⟨hkind, htime, -, hnode⟩ := (hfields a ha).1 l hspells
  have hsize : (ofLine? line).map (·.packetSize) = some 536 := by decide +kernel
  rw [ha] at hsize
  refine ⟨a, ha, hkind, ?_, ?_, Option.some.inj hsize⟩
  · rw [htime]
    decide +kernel
  · rw [hnode]
    decide +kernel

end Anchors

end PacketTrace

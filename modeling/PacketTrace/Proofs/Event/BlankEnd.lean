import PacketTrace.Event.Classify
import PacketTrace.Proofs.Text.Blank

/-!
# `Proofs.Event.BlankEnd` — the event of a line does not depend on its blank end

Every reader of `Event.ofLine?` is put together from the steps of `Proofs.Text.Blank`, so each of them is
settled by naming its steps in order. What remains to check by hand is where a reader may stop at the end
of the text: a bracket that is never closed and a line that has nothing but its blank end.

## Contents
- **Anchors.** `ignoresBlankEnd_anchors`.
- **Sequence numbers.** `ignoresBlankEnd_seqMatch`, pattern by pattern.
- **Events.** `ignoresBlankEnd_event`, with `ofLine?_rawLine` for the line that an event keeps and
  `ofLine?_of_isAllBlank` for a line of blanks.
-/

namespace PacketTrace

open Text

/-! ## Anchors -/

namespace Anchors

/-- A blank character is no event symbol. -/
theorem ofSymbol?_of_isBlank {c : Char} (h : isBlank c = true) : EventKind.ofSymbol? c = none := by
  unfold EventKind.ofSymbol?
  split
  · exact absurd h (by decide)
  · exact absurd h (by decide)
  · exact absurd h (by decide)
  · rfl

/-- After at least one blank. What comes next must not begin in the blank end, since the end might be
    all there is. -/
theorem afterBlanks?_bind {α : Type} {next : Text → Option α} (h : IgnoresBlankEnd next)
    (hnil : next [] = none) : IgnoresBlankEnd fun t => (afterBlanks? t).bind next := by
  intro t w hw
  show (afterBlanks? (t ++ w)).bind next = (afterBlanks? t).bind next
  cases t with
  | nil =>
    cases w with
    | nil => rfl
    | cons c w =>
      obtain ⟨hc, hrest⟩ := isAllBlank_cons.mp hw
      show (if isBlank c = true then some (skipBlank w) else none).bind next = none
      rw [if_pos hc, skipBlank_of_isAllBlank hrest]
      exact hnil
  | cons c t =>
    rw [List.cons_append, afterBlanks?, afterBlanks?]
    by_cases hc : isBlank c = true
    · rw [if_pos hc, if_pos hc]
      exact IgnoresBlankEnd.afterSkip h t w hw
    · rw [if_neg hc, if_neg hc]

theorem ignoresBlankEnd_lengthAt? : IgnoresBlankEnd lengthAt? :=
  .afterWord (by decide) (.afterSkip (.afterDigits fun _ => .const _))

/-- **The anchors of a line do not depend on its blank end.** -/
theorem ignoresBlankEnd_anchors : IgnoresBlankEnd ofLine? := by
  intro t w hw
  cases t with
  | nil =>
    cases w with
    | nil => rfl
    | cons c w =>
      show (EventKind.ofSymbol? c).bind _ = none
      rw [ofSymbol?_of_isBlank (isAllBlank_cons.mp hw).1]
      rfl
  | cons symbol t =>
    rw [List.cons_append, ofLine?, ofLine?]
    cases EventKind.ofSymbol? symbol with
    | none => rfl
    | some kind =>
      -- the steps behind the symbol, from the last to the first
      have hsize : ∀ (whole fraction node : Text), IgnoresBlankEnd fun rest =>
          (lastInLine lengthAt? none rest).bind fun size => some
            { kind, time := seconds whole fraction, nodeId := Numeral.cappedValue node,
              packetSize := Numeral.cappedValue size : Anchors } := fun _ _ _ =>
        (ignoresBlankEnd_lengthAt?.lastInLine rfl none).bind _
      have hnode : ∀ whole fraction : Text, IgnoresBlankEnd fun rest =>
          (nodeMark.isPrefixOf? rest).bind fun rest => (Numeral.leadingDigits? rest).bind fun node =>
            (['/'].isPrefixOf? node.2).bind fun rest =>
              (lastInLine lengthAt? none rest).bind fun size => some
                { kind, time := seconds whole fraction, nodeId := Numeral.cappedValue node.1,
                  packetSize := Numeral.cappedValue size : Anchors } := fun whole fraction =>
        .afterWord (by decide) (.afterDigits fun node => .afterWord (by decide) (hsize _ _ _))
      exact afterBlanks?_bind
        (.afterDigits fun whole => .afterWord (by decide) (.afterDigits fun fraction =>
          afterBlanks?_bind (hnode whole fraction) rfl)) rfl t w hw

end Anchors

/-! ## Sequence numbers -/

namespace SeqMatch

theorem ignoresBlankEnd_seqFieldAt? : IgnoresBlankEnd seqFieldAt? :=
  .afterWord (by decide) (.afterDigits fun _ => .const _)

theorem ignoresBlankEnd_portAt? : IgnoresBlankEnd portAt? :=
  .afterDigits fun _ => .afterSkip (.afterWord (by decide) (.afterSkip (.afterDigits fun _ => .const _)))

theorem ignoresBlankEnd_headerPortAt? : IgnoresBlankEnd headerPortAt? :=
  .afterWord (by decide) (ignoresBlankEnd_portAt?.leftmostInLine rfl)

theorem flagListAt?_cons_of_ne {c : Char} (h : c ≠ '[') (t : Text) : flagListAt? (c :: t) = none := by
  unfold flagListAt?
  split
  · rename_i heq
    exact absurd (List.cons.inj heq).1 h
  · rfl

/-- A list that is not closed in front of the blank end is not closed at all. -/
theorem ignoresBlankEnd_flagListAt? : IgnoresBlankEnd flagListAt? := by
  intro t w hw
  have hclose : ∀ c ∈ w, (c != ']') = true := by
    intro c hc
    rw [bne_iff_ne]
    rintro rfl
    exact absurd (forall_isBlank hw _ hc) (by decide)
  have hend : w.dropWhile (· != ']') = [] := List.dropWhile_eq_nil_iff.mpr hclose
  cases t with
  | nil =>
    cases w with
    | nil => rfl
    | cons c w =>
      refine flagListAt?_cons_of_ne ?_ w
      rintro rfl
      exact absurd (isAllBlank_cons.mp hw).1 (by decide)
  | cons c t =>
    by_cases hc : c = '['
    · subst hc
      rw [List.cons_append, flagListAt?, flagListAt?, List.dropWhile_append, hend]
      by_cases hopen : t.dropWhile (· != ']') = []
      · -- no bracket closes the list, with the blank end or without it
        rw [hopen]
        rfl
      · have htake : (t ++ w).takeWhile (· != ']') = t.takeWhile (· != ']') := by
          rw [List.takeWhile_append, if_neg]
          intro hlength
          have hsum := congrArg List.length (List.takeWhile_append_dropWhile (p := (· != ']')) (l := t))
          rw [List.length_append, hlength] at hsum
          exact hopen (List.eq_nil_of_length_eq_zero (by omega))
        rw [if_neg (by simpa using hopen), htake]
        refine IgnoresBlankEnd.afterWord (by decide) ?_ _ w hw
        by_cases hempty : (t.takeWhile (· != ']')).isEmpty = true
        · simp only [hempty, if_true]
          exact .const none
        · simp only [hempty]
          exact .afterSkip (ignoresBlankEnd_seqFieldAt?.bind _)
    · rw [List.cons_append, flagListAt?_cons_of_ne hc, flagListAt?_cons_of_ne hc]

theorem ignoresBlankEnd_ofFlagList? : IgnoresBlankEnd ofFlagList? :=
  (ignoresBlankEnd_flagListAt?.leftmost rfl).bind _

theorem ignoresBlankEnd_ofSeqField? : IgnoresBlankEnd ofSeqField? :=
  (ignoresBlankEnd_seqFieldAt?.leftmost rfl).bind _

theorem ignoresBlankEnd_ofHeaderPorts? : IgnoresBlankEnd ofHeaderPorts? :=
  (ignoresBlankEnd_headerPortAt?.leftmost rfl).bind _

theorem ignoresBlankEnd_synthetic : IgnoresBlankEnd synthetic := by
  intro t w hw
  unfold synthetic syntheticSeq
  rw [ignoresBlankEnd_trim t w hw]

/-- **The sequence number of a line does not depend on its blank end.** -/
theorem ignoresBlankEnd_seqMatch : IgnoresBlankEnd ofLine := by
  intro t w hw
  unfold ofLine
  rw [ignoresBlankEnd_ofFlagList? t w hw, ignoresBlankEnd_ofSeqField? t w hw,
    ignoresBlankEnd_ofHeaderPorts? t w hw, ignoresBlankEnd_synthetic t w hw]

end SeqMatch

/-! ## Events -/

theorem Flag.isWord_name (flag : Flag) : IsWord flag.name ∧ flag.name ≠ [] := by
  cases flag <;> decide

theorem Flag.ignoresBlankEnd_keywords : IgnoresBlankEnd Flag.keywords := by
  intro t w hw
  unfold Flag.keywords
  congr 1
  funext flag
  exact ignoresBlankEnd_contains (Flag.isWord_name flag).1 (Flag.isWord_name flag).2 t w hw

theorem PacketKind.ignoresBlankEnd_ofLine (packetSize : Nat) :
    IgnoresBlankEnd fun line => PacketKind.ofLine line packetSize := by
  intro t w hw
  have hname : ∀ flag : Flag, Text.contains flag.name (t ++ w) = Text.contains flag.name t :=
    fun flag => ignoresBlankEnd_contains (Flag.isWord_name flag).1 (Flag.isWord_name flag).2 t w hw
  show PacketKind.ofLine (t ++ w) packetSize = PacketKind.ofLine t packetSize
  unfold PacketKind.ofLine
  rw [show Text.contains "SYN".toList (t ++ w) = _ from hname .syn,
    show Text.contains "FIN".toList (t ++ w) = _ from hname .fin,
    show Text.contains "RST".toList (t ++ w) = _ from hname .rst,
    show Text.contains "ACK".toList (t ++ w) = _ from hname .ack]
  rfl

/-- **The event of a line does not depend on its blank end.** -/
theorem Event.ignoresBlankEnd_event : IgnoresBlankEnd Event.ofLine? := by
  intro t w hw
  unfold Event.ofLine? FlagSet.ofLine
  rw [Anchors.ignoresBlankEnd_anchors t w hw, SeqMatch.ignoresBlankEnd_seqMatch t w hw,
    Flag.ignoresBlankEnd_keywords t w hw, ignoresBlankEnd_trim t w hw]
  congr 1
  funext anchors
  have hkind : PacketKind.ofLine (t ++ w) anchors.packetSize = PacketKind.ofLine t anchors.packetSize :=
    PacketKind.ignoresBlankEnd_ofLine anchors.packetSize t w hw
  rw [hkind]

/-- A line that is an event begins with its symbol, so `trim` takes away blanks at its end only. -/
theorem Event.exists_trim {line : Text} {e : Event} (h : Event.ofLine? line = some e) :
    ∃ w, isAllBlank w = true ∧ line = trim line ++ w := by
  have hskip : skipBlank line = line := by
    obtain ⟨anchors, hanchors, -⟩ := Option.bind_eq_some_iff.mp h
    cases line with
    | nil => rfl
    | cons symbol rest =>
      obtain ⟨kind, hkind, -⟩ := Option.bind_eq_some_iff.mp hanchors
      refine List.dropWhile_cons_of_neg fun hblank => ?_
      rw [Anchors.ofSymbol?_of_isBlank hblank] at hkind
      cases hkind
  have htrim : trim line = trimEnd line := congrArg trimEnd hskip
  rw [htrim]
  exact exists_trimEnd line

/-- **The line that an event keeps gives the event again.** -/
theorem Event.ofLine?_rawLine {line : Text} {e : Event} (h : Event.ofLine? line = some e) :
    Event.ofLine? e.rawLine = some e := by
  obtain ⟨w, hw, hline⟩ := Event.exists_trim h
  have hraw : e.rawLine = trim line := by
    obtain ⟨anchors, -, heq⟩ := Option.bind_eq_some_iff.mp h
    cases heq
    rfl
  rw [hraw, ← Event.ignoresBlankEnd_event (trim line) w hw, ← hline]
  exact h

/-- A line of blanks is no event. -/
theorem Event.ofLine?_of_isAllBlank {line : Text} (h : isAllBlank line = true) :
    Event.ofLine? line = none :=
  (Event.ignoresBlankEnd_event.blank h).trans rfl

end PacketTrace

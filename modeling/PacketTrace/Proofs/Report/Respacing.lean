import PacketTrace.Proofs.Report.Streaming
import PacketTrace.Proofs.Text.Encoding

/-!
# `Proofs.Report.Respacing` — blanks at the ends of the lines of a file

Two files that differ only in the blanks at the ends of their lines are `Respaced`. Blanks are written as the
bytes of their characters, and a line may hold any bytes in front of them, so a line may end in a malformed
sequence with blanks behind it. The decoder reads the same in front of the blanks all the same
(`Utf8.decodeLossy_append_encode`), and a session makes the same of the two lines. The end of a file is no
exception: what comes behind the last line feed may become a line, but a blank one.

Carriage returns are blanks, so the two ways to end a line are a case of this (`respaced_withReturns`).

## Contents
- **Two files.** `SameUpToBlanks` for a line and `Respaced` for a file.
- **One line.** What a session makes of a line in one file and in the other.
- **A file.** `feedLines_of_respaced` and the result on lines, events and reports.
-/

namespace PacketTrace

open Text

/-! ## Two files -/

/-- Two lines with the same bytes in front of the blanks at their ends. -/
def SameUpToBlanks (a b : Bytes) : Prop :=
  ∃ (body : Bytes) (u w : Text), a = body ++ Utf8.encode u ∧ b = body ++ Utf8.encode w ∧
    lineFeed ∉ body ∧ (isAllBlank u = true ∧ '\n' ∉ u) ∧ (isAllBlank w = true ∧ '\n' ∉ w)

/-- Two files with the same lines up to the blanks at their ends. -/
inductive Respaced : Bytes → Bytes → Prop
  /-- What comes behind the last line feed. -/
  | last {a b : Bytes} : SameUpToBlanks a b → Respaced a b
  /-- A line and the rest of the file. -/
  | line {a b rest rest' : Bytes} :
    SameUpToBlanks a b → Respaced rest rest' → Respaced (a ++ lineFeed :: rest) (b ++ lineFeed :: rest')

/-- A file with a carriage return put in front of every line feed. -/
def withReturns (bytes : Bytes) : Bytes :=
  bytes.flatMap fun b => if b = lineFeed then [0x0D, lineFeed] else [b]

theorem withReturns_of_not_mem {bytes : Bytes} (h : lineFeed ∉ bytes) : withReturns bytes = bytes := by
  induction bytes with
  | nil => rfl
  | cons b bytes ih =>
    rw [List.mem_cons, not_or] at h
    have hrest := ih h.2
    unfold withReturns at hrest ⊢
    rw [List.flatMap_cons, if_neg (Ne.symm h.1), hrest, List.singleton_append]

/-- The two ways to end a line. -/
theorem respaced_withReturns (bytes : Bytes) : Respaced bytes (withReturns bytes) := by
  induction bytes using induction_on_separator lineFeed with
  | single bytes h =>
    rw [withReturns_of_not_mem h]
    exact .last ⟨bytes, [], [], (List.append_nil bytes).symm, (List.append_nil bytes).symm, h,
      ⟨rfl, List.not_mem_nil⟩, ⟨rfl, List.not_mem_nil⟩⟩
  | cut line rest h ih =>
    have hcut : withReturns (line ++ lineFeed :: rest) =
        (line ++ Utf8.encode ['\r']) ++ lineFeed :: withReturns rest := by
      have hline : withReturns line = line := withReturns_of_not_mem h
      unfold withReturns at hline ⊢
      rw [List.flatMap_append, List.flatMap_cons, if_pos rfl, hline, List.append_assoc]
      rfl
    rw [hcut]
    exact .line ⟨line, [], ['\r'], (List.append_nil line).symm, rfl, h, ⟨rfl, List.not_mem_nil⟩,
      by decide⟩ ih

/-! ## One line -/

/-- A line of a file, in front of its terminator. -/
theorem SameUpToBlanks.lineFeed_not_mem {a b : Bytes} (h : SameUpToBlanks a b) :
    lineFeed ∉ a ∧ lineFeed ∉ b := by
  obtain ⟨body, u, w, rfl, rfl, hbody, ⟨-, hu⟩, ⟨-, hw⟩⟩ := h
  rw [List.mem_append, List.mem_append, not_or, not_or]
  exact ⟨⟨hbody, Utf8.lineFeed_not_mem_encode hu⟩, ⟨hbody, Utf8.lineFeed_not_mem_encode hw⟩⟩

/-- Whatever follows both lines, they are the same text with blanks put at its end. -/
theorem SameUpToBlanks.extendsByBlank {a b : Bytes} (h : SameUpToBlanks a b) {terminator : Text}
    (hterminator : isAllBlank terminator = true) :
    ∃ short, ExtendsByBlank (Utf8.decodeLossy a ++ terminator) short ∧
      ExtendsByBlank (Utf8.decodeLossy b ++ terminator) short := by
  obtain ⟨body, u, w, rfl, rfl, -, ⟨hu, -⟩, ⟨hw, -⟩⟩ := h
  have hblank : ∀ t : Text, isAllBlank t = true → isAllBlank (t ++ terminator) = true := by
    intro t ht
    rw [ignoresBlankEnd_isAllBlank t terminator hterminator, ht]
  rw [Utf8.decodeLossy_append_encode, Utf8.decodeLossy_append_encode, List.append_assoc, List.append_assoc]
  exact ⟨_, ⟨u ++ terminator, hblank u hu, rfl⟩, ⟨w ++ terminator, hblank w hw, rfl⟩⟩

namespace Session

theorem feedLine_of_sameUpToBlanks (s : Session) (number : Nat) {a b : Bytes} (h : SameUpToBlanks a b)
    {terminator : Text} (hterminator : isAllBlank terminator = true) :
    s.feedLine number (Utf8.decodeLossy a ++ terminator) =
      s.feedLine number (Utf8.decodeLossy b ++ terminator) := by
  obtain ⟨short, ha, hb⟩ := h.extendsByBlank hterminator
  rw [s.feedLine_of_extendsByBlank number ha, s.feedLine_of_extendsByBlank number hb]

/-! ## A file -/

/-- The lines of a file up to its first line feed and from there on. -/
theorem feedLines_rawLines_append (s : Session) (first : Nat) {line : Bytes} (h : lineFeed ∉ line)
    (rest : Bytes) :
    s.feedLines first ((rawLines (line ++ lineFeed :: rest)).map Utf8.decodeLossy) =
      (s.feedLine first (Utf8.decodeLossy line ++ ['\n'])).2.feedLines (first + 1)
        ((rawLines rest).map Utf8.decodeLossy) := by
  have hline : Utf8.decodeLossy (line ++ [lineFeed]) = Utf8.decodeLossy line ++ ['\n'] :=
    Utf8.decodeLossy_append_lineFeed line []
  rw [rawLines_append h, List.map_cons, hline, feedLines]

/-- What comes behind the last line feed is taken as a line. If it is nothing, it is no line, but then it would
    be a blank one. -/
theorem feedLines_rawLines_of_not_mem (s : Session) (first : Nat) {line : Bytes} (h : lineFeed ∉ line) :
    s.feedLines first ((rawLines line).map Utf8.decodeLossy) =
      (s.feedLine first (Utf8.decodeLossy line ++ [])).2 := by
  rw [rawLines_of_not_mem h, List.append_nil]
  by_cases hnil : line = []
  · rw [if_pos hnil, hnil]
    rfl
  · rw [if_neg hnil]
    rfl

/-- **A session makes the same of two files** whose lines differ in the blanks at their ends. -/
theorem feedLines_of_respaced {a b : Bytes} (h : Respaced a b) (s : Session) (first : Nat) :
    s.feedLines first ((rawLines a).map Utf8.decodeLossy) =
      s.feedLines first ((rawLines b).map Utf8.decodeLossy) := by
  induction h generalizing s first with
  | last hlast =>
    rw [feedLines_rawLines_of_not_mem s first hlast.lineFeed_not_mem.1,
      feedLines_rawLines_of_not_mem s first hlast.lineFeed_not_mem.2,
      s.feedLine_of_sameUpToBlanks first hlast rfl]
  | line hline _ ih =>
    rw [feedLines_rawLines_append s first hline.lineFeed_not_mem.1,
      feedLines_rawLines_append s first hline.lineFeed_not_mem.2,
      s.feedLine_of_sameUpToBlanks first hline (by decide), ih]

end Session

theorem aggregateBytes_of_respaced {a b : Bytes} (h : Respaced a b) (samples : Nat) :
    aggregateBytes a samples = aggregateBytes b samples := by
  unfold aggregateBytes
  rw [Session.feedLines_of_respaced h]

/-- **Blanks at the end of a line do not matter.** The event of a line is the same with them, the line that an
    event keeps gives the event again, and files whose lines differ in such blanks have the same report; so it does
    not matter which of the two ways to end a line a file uses. -/
theorem blank_ends_change_nothing :
    (∀ line w : Text, isAllBlank w = true → Event.ofLine? (line ++ w) = Event.ofLine? line) ∧
    (∀ (line : Text) (e : Event), Event.ofLine? line = some e → Event.ofLine? e.rawLine = some e) ∧
    (∀ (a b : Bytes) (samples : Nat), Respaced a b → aggregateBytes a samples = aggregateBytes b samples) ∧
    ∀ (bytes : Bytes) (samples : Nat),
      aggregateBytes (withReturns bytes) samples = aggregateBytes bytes samples :=
  ⟨Event.ignoresBlankEnd_event, fun _ _ => Event.ofLine?_rawLine,
    fun _ _ samples h => aggregateBytes_of_respaced h samples,
    fun bytes samples => (aggregateBytes_of_respaced (respaced_withReturns bytes) samples).symm⟩

end PacketTrace

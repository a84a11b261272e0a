import PacketTrace.Text.Basic

/-!
# `Text.Search` — places in a text

A search tries one recogniser at place after place. A recogniser gets the rest of the text from its
place on and answers with what it found there, if it found anything.

## Contents
- `leftmost`: the first place at which the recogniser finds something.
- `leftmostInLine` and `lastInLine`: the first and the last such place that is reached without
  crossing a line feed.
-/

namespace PacketTrace.Text

variable {α : Type}

/-- What the recogniser finds at the first place where it finds something. -/
def leftmost (recognise : Text → Option α) : Text → Option α
  | [] => recognise []
  | c :: rest =>
    match recognise (c :: rest) with
    | some found => some found
    | none => leftmost recognise rest

/-- As `leftmost`, at the places that are reached without crossing a line feed. -/
def leftmostInLine (recognise : Text → Option α) : Text → Option α
  | [] => recognise []
  | c :: rest =>
    match recognise (c :: rest) with
    | some found => some found
    | none => if c = '\n' then none else leftmostInLine recognise rest

/-- What the recogniser finds at the last place where it finds something, among the places that are
    reached without crossing a line feed; `best` if there is no such place. -/
def lastInLine (recognise : Text → Option α) (best : Option α) : Text → Option α
  | [] => (recognise []).or best
  | c :: rest =>
    let best := (recognise (c :: rest)).or best
    if c = '\n' then best else lastInLine recognise best rest

end PacketTrace.Text

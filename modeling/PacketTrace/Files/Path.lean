import PacketTrace.Text.Basic

/-!
# `Files.Path` — names of files

A path is a text; a slash divides its segments. Two spellings of a path may mean the same by their
form alone: empty segments do not count, nor does a segment `.` that is not the first.

## Contents
- **Form.** `Path.parts` is what counts of a path, and `Path.sameForm` compares two paths by it.
- **Parents.** `Path.parent?` is the path without its last part.
- **Walks.** `Path.segments` lists the steps that a path takes through directories. They start from the
  root of a `FileTree`, which stands for the working directory, whether the path begins with a slash or
  not; only the form of a path tells the two apart.
-/

namespace PacketTrace

/-- The name of a file or directory, as it is written. -/
abbrev Path := Text

/-! ## Form -/

/-- A part of a path that counts. -/
inductive PathPart where
  /-- The root, at the front of a path that begins with a slash. -/
  | root
  /-- A segment `.` at the front. -/
  | here
  /-- A segment `..`. -/
  | up
  /-- The name of a file or directory. -/
  | name (t : Text)
  deriving DecidableEq, Repr

namespace Path

/-- The segment that stays where it is. -/
def here : Text := ['.']

/-- The segment that goes up. -/
def up : Text := ['.', '.']

/-- The part that a segment behind the front stands for, if it counts. -/
def part? (segment : Text) : Option PathPart :=
  if segment = [] || segment = here then none
  else if segment = up then some .up
  else some (.name segment)

/-- The parts of a path that count. -/
def parts (p : Path) : List PathPart :=
  match Text.split '/' p with
  | [] => []
  | first :: rest =>
    let front : Option PathPart :=
      if first = [] then (if p = [] then none else some .root)
      else if first = here then some .here
      else part? first
    front.toList ++ rest.filterMap part?

/-- Whether two paths are the same by their form. -/
def sameForm (p q : Path) : Bool := parts p = parts q

/-! ## Parents -/

/-- A segment that does not count behind the front. -/
def isIdle (segment : Text) : Bool := segment = [] || segment = here

/-- A path without its last part, as it is written; nothing for the empty path and for the root. -/
def parent? (p : Path) : Option Path :=
  match Text.split '/' p with
  | [] => none
  | first :: rest =>
    match rest.reverse.dropWhile isIdle with
    | [] => if first = [] then none else some []
    | _ :: before =>
      match before.dropWhile isIdle with
      | [] => if first = [] then some ['/'] else some first
      | kept => some (Text.join ['/'] (first :: kept.reverse))

/-! ## Walks -/

/-- The segments of a path, without empty ones. -/
def segments (p : Path) : List Text := (Text.split '/' p).filter (· ≠ [])

/-- Whether a path ends in a slash and so can only mean a directory. -/
def endsInSlash (p : Path) : Bool := p.getLast? = some '/'

end Path

end PacketTrace

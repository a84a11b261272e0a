import PacketTrace.Files.Path
import PacketTrace.Text.Numeral
import PacketTrace.Text.Utf8

/-!
# `Files.Tree` — a tree of files

A file tree maps places to files and directories. A path leads from the root to a place, segment by
segment, and each step needs a directory to start from.

The root of the tree is the working directory: all paths are walked from there, those that begin with a
slash too, and `..` does not lead out of it. A tree with directories above the working one is not described.

What is left out: links, hard or symbolic, so two places never share their content; devices, pipes and
other entries that are neither regular files nor directories, such as `/dev/stdout`; permissions, and a
system that is full or fails in the middle of an operation; names with the character NUL or that are not
UTF-8. What is proved about files holds for trees without these.

## Contents
- **Failures.** `SystemError` says why an operation on files fails.
- **Trees.** `FileTree` with `entry?` and `put`.
- **Walks.** `FileTree.place?` finds the place that a path names.
- **Operations.** `kindAt?`, `read`, `write` and `makeDirectory`.
- **Listing.** `listing` names everything in a tree.
-/

namespace PacketTrace

/-! ## Failures -/

/-- Why an operation on files fails. -/
inductive SystemError where
  | notFound
  | alreadyExists
  | notDirectory
  | isDirectory
  | nameTooLong
  /-- Any other failure, with its description and number. -/
  | other (description : Text) (number : Nat)
  deriving DecidableEq, Repr

namespace SystemError

/-- The description and the number of a failure. -/
def describe : SystemError → Text × Nat
  | notFound => ("No such file or directory".toList, 2)
  | alreadyExists => ("File exists".toList, 17)
  | notDirectory => ("Not a directory".toList, 20)
  | isDirectory => ("Is a directory".toList, 21)
  | nameTooLong => ("File name too long".toList, 36)
  | other description number => (description, number)

/-- How a failure is told. -/
def message (e : SystemError) : Text :=
  let (description, number) := e.describe
  description ++ " (os error ".toList ++ Numeral.decimal number ++ [')']

end SystemError

/-- Why the content of a file cannot be had. -/
inductive ReadFailure where
  /-- The file cannot be opened. -/
  | opening (e : SystemError)
  /-- It is open and cannot be read. -/
  | reading (e : SystemError)
  deriving DecidableEq, Repr

/-! ## Trees -/

/-- What a place in a tree holds. -/
inductive FileKind where
  | regular
  | directory
  deriving DecidableEq, Repr

/-- What a place in a tree holds, with its content. -/
inductive FileEntry where
  | regular (content : Bytes)
  | directory
  deriving DecidableEq, Repr

/-- The kind of an entry. -/
def FileEntry.kind : FileEntry → FileKind
  | regular _ => .regular
  | directory => .directory

/-- A place: the names that lead to it from the root. -/
abbrev Place := List Text

/-- Files and directories at their places. The root is a directory that is always there. -/
structure FileTree where
  entries : List (Place × FileEntry) := []
  deriving DecidableEq, Repr

namespace FileTree

/-- What a place holds. -/
def entry? (t : FileTree) (place : Place) : Option FileEntry :=
  if place = [] then some .directory else t.entries.lookup place

/-- The tree with another entry at a place. -/
def put (t : FileTree) (place : Place) (entry : FileEntry) : FileTree :=
  ⟨(place, entry) :: t.entries.filter (·.1 ≠ place)⟩

/-! ## Walks -/

/-- The longest name, in bytes. -/
def maxNameBytes : Nat := 255

/-- The longest path, in bytes. -/
def maxPathBytes : Nat := 4095

/-- The length of a text in bytes. -/
def byteLength (t : Text) : Nat := (Utf8.encode t).length

/-- One step of a walk, out of a directory. -/
def step (t : FileTree) (place : Place) (segment : Text) : Except SystemError Place :=
  match t.entry? place with
  | some .directory =>
    if segment = Path.here then .ok place
    else if segment = Path.up then .ok place.dropLast
    else if maxNameBytes < byteLength segment then .error .nameTooLong
    else
      match t.entry? (place ++ [segment]) with
      | some _ => .ok (place ++ [segment])
      | none => .error .notFound
  | _ => .error .notDirectory

/-- The place to which some segments lead from the root. -/
def walk (t : FileTree) (segments : List Text) : Except SystemError Place :=
  segments.foldlM t.step []

/-- Refuse paths that no operation accepts. -/
def checkPath (p : Path) : Except SystemError Unit :=
  if p = [] then .error .notFound
  else if maxPathBytes < byteLength p then .error .nameTooLong
  else .ok ()

/-- The place that a path names and what it holds. -/
def find (t : FileTree) (p : Path) : Except SystemError (Place × FileEntry) := do
  checkPath p
  let place ← t.walk p.segments
  match t.entry? place with
  | none => throw .notFound
  | some entry =>
    if p.endsInSlash && entry.kind = .regular then throw .notDirectory else return (place, entry)

/-- The place where something may be made: a directory that is there and a name in it. -/
inductive Target where
  /-- The path names a directory by its form. -/
  | directory
  | named (place : Place) (entry : Option FileEntry)

/-- The place that a path names when something is to be made there. If `regular`, a path that ends in a
    slash is out of the question. -/
def target (t : FileTree) (p : Path) (regular : Bool) : Except SystemError Target := do
  checkPath p
  match p.segments.reverse with
  | [] => return .directory
  | name :: before =>
    let parent ← t.walk before.reverse
    if t.entry? parent ≠ some .directory then throw .notDirectory
    if name = Path.here || name = Path.up || (regular && p.endsInSlash) then return .directory
    if maxNameBytes < byteLength name then throw .nameTooLong
    return .named (parent ++ [name]) (t.entry? (parent ++ [name]))

/-! ## Operations -/

/-- What a path names, if it names anything. -/
def kindAt? (t : FileTree) (p : Path) : Option FileKind :=
  match t.find p with
  | .ok (_, entry) => some entry.kind
  | .error _ => none

/-- The content of a file. A directory can be opened and not be read. -/
def read (t : FileTree) (p : Path) : Except ReadFailure Bytes :=
  match t.find p with
  | .ok (_, .regular content) => .ok content
  | .ok (_, .directory) => .error (.reading .isDirectory)
  | .error e => .error (.opening e)

/-- Give a file new content; make the file if there is none. -/
def write (t : FileTree) (p : Path) (content : Bytes) : Except SystemError FileTree := do
  match ← t.target p true with
  | .directory | .named _ (some .directory) => throw .isDirectory
  | .named place _ => return t.put place (.regular content)

/-- Make a directory. -/
def makeDirectory (t : FileTree) (p : Path) : Except SystemError FileTree := do
  match ← t.target p false with
  | .directory | .named _ (some _) => throw .alreadyExists
  | .named place none => return t.put place .directory

/-! ## Listing -/

/-- The name of a place in a listing; directories end in a slash. -/
def displayName (place : Place) (entry : FileEntry) : Text :=
  Text.join ['/'] place ++ if entry = .directory then ['/'] else []

/-- Everything in the tree, in the order of the characters. -/
def listing (t : FileTree) : List Text :=
  (t.entries.map fun e => displayName e.1 e.2).mergeSort Text.isUpTo

end FileTree

end PacketTrace

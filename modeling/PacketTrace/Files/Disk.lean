import PacketTrace.Files.Tree

/-!
# `Files.Disk` — programs that use files

A program that uses files is written for any monad with the operations of `Disk`. On a `FileTree` it is
a function that can be reasoned about; with the operations of a machine it runs.

## Contents
- `Disk`: the operations, and their meaning on a file tree.
- `makeDirectories`: a directory with all the directories above it.
-/

namespace PacketTrace

/-- What a program may do with files. -/
class Disk (m : Type → Type) where
  /-- What a path names, if it names anything. -/
  kindAt? : Path → m (Option FileKind)
  /-- The content of a file. -/
  read : Path → m (Except ReadFailure Bytes)
  /-- Give a file new content; make the file if there is none. -/
  write : Path → Bytes → m (Except SystemError Unit)
  /-- Make a directory in a directory that is there. -/
  makeDirectory : Path → m (Except SystemError Unit)

/-- Keep the tree if the operation failed. -/
def FileTree.after (t : FileTree) : Except SystemError FileTree → Except SystemError Unit × FileTree
  | .ok changed => (.ok (), changed)
  | .error e => (.error e, t)

/-- Programs on a file tree. -/
abbrev OnTree := StateM FileTree

instance : Disk OnTree where
  kindAt? p := fun t => (t.kindAt? p, t)
  read p := fun t => (t.read p, t)
  write p content := fun t => t.after (t.write p content)
  makeDirectory p := fun t => t.after (t.makeDirectory p)

section

variable {m : Type → Type} [Monad m] [Disk m]

/-- Make a directory unless it is there. -/
def ensureDirectory (p : Path) : m (Except SystemError Unit) := do
  match ← Disk.makeDirectory p with
  | .ok () => return .ok ()
  | .error e => if (← Disk.kindAt? p) = some .directory then return .ok () else return .error e

/-- Make a directory, and first those above it that are missing; `fuel` bounds how many there are. -/
def makeDirectoriesFrom : Nat → Path → m (Except SystemError Unit)
  | 0, _ => return .ok ()
  | fuel + 1, p => do
    if p = [] then return .ok ()
    match ← ensureDirectory p with
    | .error .notFound =>
      match Path.parent? p with
      | none => return .error .notFound
      | some parent =>
        match ← makeDirectoriesFrom fuel parent with
        | .ok () => ensureDirectory p
        | .error e => return .error e
    | outcome => return outcome

/-- Make a directory and those above it. A path has fewer parents than characters. -/
def makeDirectories (p : Path) : m (Except SystemError Unit) := makeDirectoriesFrom (p.length + 1) p

end

end PacketTrace

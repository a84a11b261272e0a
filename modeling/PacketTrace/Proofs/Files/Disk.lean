import PacketTrace.Files.Disk
import PacketTrace.Proofs.Files.Path

/-!
# `Proofs.Files.Disk` — programs that only add directories

On a file tree, a program that does no more than look, read and make directories leaves a tree with more
directories, and they are where it makes them. `OnTree.AddsWithin` says so of a program and is closed
under the ways to build one, so a program is settled along its own text.

## Contents
- **Runs.** `OnTree.run_bind` for a program whose first part is known.
- **Building blocks.** `AddsWithin.pure`, `.bind` and the operations; `AddsDirectories` where the places do
  not matter.
- **Programs.** `ensureDirectory` and `makeDirectories`.
-/

namespace PacketTrace

namespace OnTree

variable {α β : Type}

/-! ## Runs -/

/-- A program goes on with the result of its first part, in the tree that this part has left. -/
theorem run_bind {x : OnTree α} {t u : FileTree} {a : α} (h : x.run t = (a, u)) (f : α → OnTree β) :
    (x >>= f).run t = (f a).run u := by
  rw [StateT.run_bind, h]
  rfl

/-! ## Building blocks -/

/-- Whatever the tree, the program leaves it with more directories at most. -/
def AddsDirectories (x : OnTree α) : Prop := ∀ t : FileTree, t.AddsDirectories (x.run t).2

/-- Whatever the tree, the program leaves it with more directories at most, and only at the given
    places. -/
def AddsWithin (places : Place → Prop) (x : OnTree α) : Prop :=
  ∀ t : FileTree, t.AddsWithin places (x.run t).2

variable {places : Place → Prop}

theorem AddsWithin.addsDirectories {x : OnTree α} (h : AddsWithin places x) : AddsDirectories x :=
  fun t => (h t).addsDirectories

theorem AddsWithin.pure (a : α) : AddsWithin places (Pure.pure a : OnTree α) :=
  FileTree.AddsWithin.refl places

theorem AddsWithin.bind {x : OnTree α} (hx : AddsWithin places x) {f : α → OnTree β}
    (hf : ∀ a, AddsWithin places (f a)) : AddsWithin places (x >>= f) := fun t =>
  (hx t).trans (hf (x.run t).1 (x.run t).2)

theorem AddsWithin.kindAt? (p : Path) : AddsWithin places (Disk.kindAt? p : OnTree _) :=
  FileTree.AddsWithin.refl places

theorem AddsWithin.makeDirectory {p : Path} (hp : places p.destination) :
    AddsWithin places (Disk.makeDirectory p : OnTree _) := by
  intro t
  show t.AddsWithin places (t.after (t.makeDirectory p)).2
  cases h : t.makeDirectory p with
  | error e => exact .refl places t
  | ok u => exact FileTree.addsWithin_of_makeDirectory hp h

/-! ## Programs -/

theorem AddsWithin.ensureDirectory {p : Path} (hp : places p.destination) :
    AddsWithin places (ensureDirectory p : OnTree _) := by
  refine .bind (.makeDirectory hp) fun outcome => ?_
  cases outcome with
  | ok _ => exact .pure _
  | error e =>
    refine .bind (.kindAt? p) fun kind => ?_
    split
    · exact .pure _
    · exact .pure _

theorem AddsWithin.makeDirectoriesFrom (fuel : Nat) {p : Path} (hp : places p.destination)
    (hpassed : ∀ place, p.Passes place → places place) :
    AddsWithin places (makeDirectoriesFrom fuel p : OnTree _) := by
  induction fuel generalizing p with
  | zero => exact .pure _
  | succ fuel ih =>
    unfold PacketTrace.makeDirectoriesFrom
    split
    · exact .pure _
    · refine .bind (.ensureDirectory hp) fun outcome => ?_
      -- the directory above is missing: it is made first, and then this one
      split
      · split
        · exact .pure _
        · rename_i parent hparent
          have hdone : AddsWithin places (PacketTrace.makeDirectoriesFrom fuel parent : OnTree _) :=
            ih (hpassed _ (Path.passes_destination_of_parent? hparent))
              fun place hplace => hpassed place (hplace.of_parent? hparent)
          refine .bind hdone fun outcome => ?_
          cases outcome with
          | ok _ => exact .ensureDirectory hp
          | error e => exact .pure _
      · exact .pure _

theorem AddsWithin.makeDirectories {p : Path} (hp : places p.destination)
    (hpassed : ∀ place, p.Passes place → places place) :
    AddsWithin places (makeDirectories p : OnTree _) :=
  .makeDirectoriesFrom _ hp hpassed

end OnTree

end PacketTrace

import PacketTrace.Command.Output
import PacketTrace.Proofs.Files.Disk

/-!
# `Proofs.Command.Output` — what writing an output does to a tree

Everything before the write itself only adds directories, so an output that fails leaves every file as it
was, and one that succeeds changes the file at its destination and no other. The directories are those
that the path of the output passes.

## Contents
- **Preparation.** `checkOutput` and `prepareOutput` add directories at most, and where.
- **Outputs.** `writeOutput_run` for one and what follows from how it ends, `FileTree.WroteAll` for several
  in order.
-/

namespace PacketTrace

/-! ## Preparation -/

theorem OnTree.AddsWithin.checkOutput (places : Place → Prop) (p : Path) :
    AddsWithin places (checkOutput p : OnTree _) := by
  unfold PacketTrace.checkOutput
  split
  · exact .pure _
  · refine .bind (.kindAt? p) fun kind => ?_
    split
    · exact .pure _
    · exact .pure _

/-- **Preparing an output adds directories at most**, and only where its path passes, whether it succeeds
    or not. -/
theorem OnTree.AddsWithin.prepareOutput (p : Path) :
    AddsWithin p.Passes (prepareOutput p : OnTree _) := by
  refine .bind (.checkOutput p.Passes p) fun outcome => ?_
  cases outcome with
  | error e => exact .pure _
  | ok _ =>
    dsimp only
    split
    · exact .pure _
    · exact .pure _
    · rename_i parent _ hparent
      have hmade : AddsWithin p.Passes (PacketTrace.makeDirectories parent : OnTree _) :=
        .makeDirectories (Path.passes_destination_of_parent? hparent) fun _ hplace =>
          hplace.of_parent? hparent
      refine .bind (.kindAt? _) fun kind => ?_
      split
      · exact .pure _
      · refine .bind hmade fun outcome => ?_
        cases outcome with
        | ok _ => exact .pure _
        | error e => exact .pure _

theorem OnTree.AddsDirectories.prepareOutput (p : Path) :
    AddsDirectories (prepareOutput p : OnTree _) :=
  (AddsWithin.prepareOutput p).addsDirectories

/-! ## Outputs -/

/-- **How an output ends.** If it fails, the tree is as the preparation left it; if it succeeds, the file
    was written into that tree. -/
theorem writeOutput_run {p : Path} {content : Bytes} {t u : FileTree} {outcome : Except OutputError Unit}
    (h : (writeOutput p content : OnTree _).run t = (outcome, u)) :
    let prepared := ((prepareOutput p : OnTree _).run t).2
    (∃ e, outcome = .error e ∧ u = prepared) ∨ (outcome = .ok () ∧ prepared.write p content = .ok u) := by
  unfold writeOutput at h
  rcases hrun : (prepareOutput p : OnTree _).run t with ⟨prepares, prepared⟩
  rw [OnTree.run_bind hrun] at h
  dsimp only
  cases prepares with
  | error e =>
    cases h
    exact .inl ⟨e, rfl, rfl⟩
  | ok _ =>
    -- the directories are there and only the write is left
    have hwrite : (Disk.write p content : OnTree _).run prepared =
        prepared.after (prepared.write p content) := rfl
    cases hresult : prepared.write p content with
    | error e =>
      rw [hresult] at hwrite
      rw [OnTree.run_bind hwrite] at h
      cases h
      exact .inl ⟨_, rfl, rfl⟩
    | ok written =>
      rw [hresult] at hwrite
      rw [OnTree.run_bind hwrite] at h
      cases h
      exact .inr ⟨rfl, rfl⟩

variable {p : Path} {content : Bytes} {t u : FileTree}

/-- An output that fails adds directories at most, and only where its path passes. -/
theorem addsWithin_of_writeOutput {e : OutputError}
    (h : (writeOutput p content : OnTree _).run t = (.error e, u)) : t.AddsWithin p.Passes u := by
  rcases writeOutput_run h with ⟨_, -, rfl⟩ | ⟨hok, -⟩
  · exact OnTree.AddsWithin.prepareOutput p t
  · cases hok

/-- **An output that succeeds was written**, and nothing else happened but that directories were made. -/
theorem wrote_of_writeOutput (h : (writeOutput p content : OnTree _).run t = (.ok (), u)) :
    t.Wrote p content u := by
  rcases writeOutput_run h with ⟨_, herror, -⟩ | ⟨-, hwrite⟩
  · cases herror
  · exact ⟨_, OnTree.AddsDirectories.prepareOutput p t, hwrite⟩

/-- Beside its own place, an output that succeeds adds directories at most, and only where its path
    passes. -/
theorem entry_of_writeOutput (h : (writeOutput p content : OnTree _).run t = (.ok (), u)) {place : Place}
    (hplace : place ≠ p.destination) :
    u.entry? place = t.entry? place ∨
      p.Passes place ∧ t.entry? place = none ∧ u.entry? place = some .directory := by
  rcases writeOutput_run h with ⟨_, herror, -⟩ | ⟨-, hwrite⟩
  · cases herror
  · obtain ⟨hdestination, -, hput⟩ := FileTree.write_eq_ok hwrite
    rw [hput, FileTree.entry_put _ hdestination, if_neg hplace]
    exact OnTree.AddsWithin.prepareOutput p t place

/-- Outputs were written one after the other, and nothing else happened but that directories were
    made. -/
def FileTree.WroteAll (t : FileTree) : List (Path × Bytes) → FileTree → Prop
  | [], u => t.AddsDirectories u
  | (p, content) :: rest, u => ∃ v, t.Wrote p content v ∧ v.WroteAll rest u

/-- The content of the last output that leads to a place. -/
def lastAt? (place : Place) : List (Path × Bytes) → Option Bytes
  | [] => none
  | (p, content) :: rest => (lastAt? place rest).or (if p.destination = place then some content else none)

/-- **A file after several outputs.** The last output that leads to its place decides; without one the
    file is as it was. -/
theorem FileTree.WroteAll.read {outputs : List (Path × Bytes)} {q : Path} {old : Bytes}
    (h : t.WroteAll outputs u) (hread : t.read q = .ok old) :
    u.read q = .ok ((lastAt? q.destination outputs).getD old) := by
  induction outputs generalizing t old with
  | nil => exact FileTree.AddsDirectories.read h hread
  | cons output rest ih =>
    obtain ⟨v, hwrote, hrest⟩ := h
    rw [ih hrest (hwrote.read hread), lastAt?]
    cases lastAt? q.destination rest with
    | some content => rfl
    | none =>
      rw [Option.none_or]
      split
      · rfl
      · rfl

end PacketTrace

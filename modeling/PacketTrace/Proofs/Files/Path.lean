import Mathlib.Data.List.DropRight
import PacketTrace.Proofs.Files.Tree
import PacketTrace.Proofs.Text.Lines

/-!
# `Proofs.Files.Path` — the places that a path passes

A path leads through a directory for each of its segments but the last. `Path.Passes` names these places
by the segments alone, so `..` and idle segments are followed as a walk follows them.

The parent of a path is found in its text and not along its segments. It is a path with the same segments
but some at the end (`segments_of_parent?`), so it leads to a place that the path passes, and it passes
no others.

## Contents
- **Segments.** `segments_join` and `segments_of_parent?`.
- **Places.** `Path.Passes`, and the places of a parent.
-/

namespace PacketTrace.Path

/-! ## Segments -/

/-- The segments of a path that was put together. -/
theorem segments_join {pieces : List Text} (hne : pieces ≠ []) (h : ∀ piece ∈ pieces, '/' ∉ piece) :
    segments (Text.join ['/'] pieces) = pieces.filter (· ≠ []) := by
  unfold segments
  rw [Text.split_join hne h]

/-- What is left when the idle segments at the end are cut off ends in a segment that is not empty. -/
theorem eq_append_of_dropWhile_isIdle {pieces before : List Text} {last : Text}
    (h : pieces.reverse.dropWhile isIdle = last :: before) :
    last ≠ [] ∧ ∃ idle, pieces = before.reverse ++ last :: idle := by
  constructor
  · have hcounts := List.head?_dropWhile_not isIdle pieces.reverse
    rw [h] at hcounts
    rintro rfl
    cases hcounts
  · obtain ⟨idle, hprefix⟩ := List.rdropWhile_prefix isIdle (l := pieces)
    rw [List.rdropWhile, h, List.reverse_cons, List.append_assoc, List.singleton_append] at hprefix
    exact ⟨idle, hprefix.symm⟩

/-- **The parent has the first segments of a path**, and at least one is missing. -/
theorem segments_of_parent? {p q : Path} (h : p.parent? = some q) :
    ∃ after, after ≠ [] ∧ p.segments = q.segments ++ after := by
  have hpieces : ∀ piece ∈ Text.split '/' p, '/' ∉ piece := fun _ => Text.not_mem_of_mem_split
  have hsegments : p.segments = (Text.split '/' p).filter (· ≠ []) := rfl
  unfold parent? at h
  cases hsplit : Text.split '/' p with
  | nil => exact absurd hsplit (Text.split_ne_nil '/' p)
  | cons first rest =>
    rw [hsplit] at h hpieces hsegments
    dsimp only at h
    split at h
    · -- only the front counts, and it is the last part
      split at h
      · cases h
      rename_i hfirst
      cases h
      refine ⟨p.segments, ?_, rfl⟩
      rw [hsegments, List.filter_cons_of_pos (by simpa using hfirst)]
      exact List.cons_ne_nil _ _
    · rename_i last before hlast
      -- the last part that counts is cut off with everything behind it, and so are idle segments before it
      obtain ⟨hname, idle, hrest⟩ := eq_append_of_dropWhile_isIdle hlast
      obtain ⟨idle', hbefore⟩ := List.rdropWhile_prefix isIdle (l := before.reverse)
      rw [List.rdropWhile, List.reverse_reverse] at hbefore
      rw [← hbefore, List.append_assoc] at hrest
      have hkept : ∀ piece ∈ first :: (before.dropWhile isIdle).reverse, '/' ∉ piece := by
        rw [hrest, ← List.cons_append] at hpieces
        exact (List.forall_mem_append.mp hpieces).1
      have hq : q.segments = (first :: (before.dropWhile isIdle).reverse).filter (· ≠ []) := by
        rw [← segments_join (List.cons_ne_nil _ _) hkept]
        split at h
        · rename_i hnone
          rw [hnone]
          split at h
          · rename_i hfirst
            cases h
            rw [hfirst]
            rfl
          · cases h
            rfl
        · cases h
          rfl
      refine ⟨(idle' ++ last :: idle).filter (· ≠ []), ?_, ?_⟩
      · exact List.ne_nil_of_mem (List.mem_filter.mpr
          ⟨List.mem_append_right _ List.mem_cons_self, decide_eq_true hname⟩)
      · rw [hsegments, hq, ← List.filter_append, List.cons_append, ← hrest]

/-! ## Places -/

/-- A path passes a place: it leads there with some of its segments, and more follow. -/
def Passes (p : Path) (place : Place) : Prop :=
  ∃ before after, after ≠ [] ∧ p.segments = before ++ after ∧ place = before.foldl Place.follow []

/-- The parent of a path leads to a place that the path passes. -/
theorem passes_destination_of_parent? {p q : Path} (h : p.parent? = some q) : p.Passes q.destination := by
  obtain ⟨after, hne, hsegments⟩ := segments_of_parent? h
  exact ⟨q.segments, after, hne, hsegments, rfl⟩

/-- What the parent of a path passes, the path passes too. -/
theorem Passes.of_parent? {p q : Path} (h : p.parent? = some q) {place : Place} (hq : q.Passes place) :
    p.Passes place := by
  obtain ⟨after, -, hp⟩ := segments_of_parent? h
  obtain ⟨before, between, hne, hsegments, hplace⟩ := hq
  refine ⟨before, between ++ after, List.append_ne_nil_of_left_ne_nil hne after, ?_, hplace⟩
  rw [hp, hsegments, List.append_assoc]

end PacketTrace.Path

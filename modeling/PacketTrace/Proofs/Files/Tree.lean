import Mathlib.Data.List.Basic
import PacketTrace.Files.Tree
import PacketTrace.Proofs.Except

/-!
# `Proofs.Files.Tree` — where paths lead and what stays in place

A path can name one place only, whatever the tree (`Path.destination`): the tree decides whether the walk
succeeds and never where it goes. So two paths name the same file exactly if they have the same
destination, however they are spelled and whatever was made or written in between.

What changes a tree here never takes a directory away, and a walk needs no more than that
(`Extends.find`). A file that could be read before can therefore be read afterwards, and its content is
whatever its place holds now (`Extends.read`).

## Contents
- **Entries.** `entry_put`.
- **Destinations.** `Path.destination`, and that walks and operations agree with it.
- **What stays.** `FileTree.Extends`, `FileTree.AddsDirectories`, and `FileTree.AddsWithin` for directories
  at given places only.
- **One output.** `FileTree.Wrote` and what a file holds afterwards; `read_of_write` for the output itself.
-/

namespace PacketTrace

/-! ## Entries -/

namespace FileTree

theorem lookup_filter_ne {place q : Place} (h : q ≠ place) (entries : List (Place × FileEntry)) :
    (entries.filter (·.1 ≠ place)).lookup q = entries.lookup q := by
  induction entries with
  | nil => rfl
  | cons e entries ih =>
    obtain ⟨here, entry⟩ := e
    by_cases hhere : here = place
    · have hq : (q == here) = false := by
        rw [beq_eq_false_iff_ne, hhere]
        exact h
      rw [List.filter_cons_of_neg (by simp [hhere]), List.lookup_cons, hq, ih]
    · rw [List.filter_cons_of_pos (by simp [hhere]), List.lookup_cons, List.lookup_cons, ih]

/-- An entry changes its own place and no other. -/
theorem entry_put (t : FileTree) {place : Place} (hplace : place ≠ []) (entry : FileEntry) (q : Place) :
    FileTree.entry? (t.put place entry) q = if q = place then some entry else t.entry? q := by
  unfold entry? put
  by_cases hroot : q = []
  · have hne : q ≠ place := by
      rintro rfl
      exact hplace hroot
    rw [if_pos hroot, if_neg hne, if_pos hroot]
  · rw [if_neg hroot, if_neg hroot, List.lookup_cons]
    by_cases hq : q = place
    · rw [if_pos hq, beq_iff_eq.mpr hq]
    · rw [if_neg hq, beq_eq_false_iff_ne.mpr hq]
      exact lookup_filter_ne hq t.entries

end FileTree

/-! ## Destinations -/

/-- Where a segment leads from a place. -/
def Place.follow (place : Place) (segment : Text) : Place :=
  if segment = Path.here then place
  else if segment = Path.up then place.dropLast
  else place ++ [segment]

/-- The place to which a path leads, by its segments alone, from the root of the tree, which is the working
directory. -/
def Path.destination (p : Path) : Place := p.segments.foldl Place.follow []

namespace FileTree

variable {t u v : FileTree} {p : Path} {place : Place} {entry : FileEntry}

/-- **When a step succeeds.** It starts from a directory and goes where its segment leads, and if the
    segment is a name it must be there. -/
theorem step_eq_ok_iff {segment : Text} {next : Place} :
    t.step place segment = .ok next ↔
      t.entry? place = some .directory ∧ next = place.follow segment ∧
        (segment ≠ Path.here → segment ≠ Path.up →
          byteLength segment ≤ maxNameBytes ∧ t.entry? next ≠ none) := by
  unfold step Place.follow
  constructor
  · intro h
    split at h
    · rename_i hdirectory
      refine ⟨hdirectory, ?_⟩
      by_cases hhere : segment = Path.here
      · rw [if_pos hhere] at h ⊢
        cases h
        exact ⟨rfl, fun hname => absurd hhere hname⟩
      rw [if_neg hhere] at h ⊢
      by_cases hup : segment = Path.up
      · rw [if_pos hup] at h ⊢
        cases h
        exact ⟨rfl, fun _ hname => absurd hup hname⟩
      rw [if_neg hup] at h ⊢
      split at h
      · cases h
      rename_i hlength
      split at h
      · rename_i entry hentry
        cases h
        refine ⟨rfl, fun _ _ => ⟨Nat.le_of_not_lt hlength, ?_⟩⟩
        rw [hentry]
        exact Option.some_ne_none entry
      · cases h
    · cases h
  · rintro ⟨hdirectory, rfl, hname⟩
    rw [hdirectory]
    dsimp only
    by_cases hhere : segment = Path.here
    · rw [if_pos hhere, if_pos hhere]
    rw [if_neg hhere, if_neg hhere]
    by_cases hup : segment = Path.up
    · rw [if_pos hup, if_pos hup]
    obtain ⟨hlength, hentry⟩ := hname hhere hup
    rw [if_neg hhere, if_neg hup] at hentry
    obtain ⟨entry, hentry⟩ := Option.ne_none_iff_exists'.mp hentry
    rw [if_neg hup, if_neg hup, if_neg (Nat.not_lt_of_le hlength), hentry]

theorem walkFrom_eq_ok {segments : List Text} {last : Place}
    (h : segments.foldlM t.step place = .ok last) : last = segments.foldl Place.follow place := by
  induction segments generalizing place with
  | nil => exact (Except.ok.inj h).symm
  | cons segment segments ih =>
    rw [List.foldlM_cons] at h
    obtain ⟨next, hstep, hrest⟩ := bind_eq_ok.mp h
    rw [List.foldl_cons, ← (step_eq_ok_iff.mp hstep).2.1]
    exact ih hrest

/-- **When a path names something.** Its destination holds it, and the walk there succeeds. -/
theorem find_eq_ok_iff :
    t.find p = .ok (place, entry) ↔
      checkPath p = .ok () ∧ t.walk p.segments = .ok place ∧ t.entry? place = some entry ∧
        ¬ (p.endsInSlash = true ∧ entry.kind = .regular) := by
  unfold find
  rw [bind_eq_ok]
  constructor
  · rintro ⟨⟨⟩, hcheck, h⟩
    obtain ⟨last, hwalk, h⟩ := bind_eq_ok.mp h
    split at h
    · cases h
    · rename_i found hentry
      split at h
      · cases h
      · rename_i hslash
        cases h
        exact ⟨hcheck, hwalk, hentry, by simpa using hslash⟩
  · rintro ⟨hcheck, hwalk, hentry, hslash⟩
    refine ⟨(), hcheck, bind_eq_ok.mpr ⟨place, hwalk, ?_⟩⟩
    rw [hentry]
    exact if_neg (by simpa using hslash)

theorem place_of_find (h : t.find p = .ok (place, entry)) : place = p.destination :=
  walkFrom_eq_ok (find_eq_ok_iff.mp h).2.1

/-- **When a file can be read.** -/
theorem read_eq_ok_iff {content : Bytes} :
    t.read p = .ok content ↔ t.find p = .ok (p.destination, .regular content) := by
  unfold read
  constructor
  · intro h
    split at h
    · rename_i place found hfind
      rw [hfind, place_of_find hfind, Except.ok.inj h]
    · cases h
    · cases h
  · intro h
    rw [h]

theorem entry_of_read {content : Bytes} (h : t.read p = .ok content) :
    t.entry? p.destination = some (.regular content) :=
  (find_eq_ok_iff.mp (read_eq_ok_iff.mp h)).2.2.1

/-- **Where something may be made.** The path ends in a name, and the segments before it lead to a
    directory. -/
theorem target_cases {regular : Bool} {found : Option FileEntry}
    (h : t.target p regular = .ok (.named place found)) :
    ∃ before name parent, checkPath p = .ok () ∧ p.segments = before ++ [name] ∧
      t.walk before = .ok parent ∧ t.entry? parent = some .directory ∧
      (name ≠ Path.here ∧ name ≠ Path.up) ∧ ¬ (regular && p.endsInSlash) = true ∧
      byteLength name ≤ maxNameBytes ∧ place = parent ++ [name] ∧ t.entry? place = found := by
  unfold target at h
  obtain ⟨⟨⟩, hcheck, h⟩ := bind_eq_ok.mp h
  split at h
  · cases h
  · rename_i name before hsegments
    obtain ⟨parent, hwalk, h⟩ := bind_eq_ok.mp h
    dsimp only at h
    split at h
    · cases h
    rename_i hdirectory
    split at h
    · cases h
    rename_i hname
    split at h
    · cases h
    rename_i hlength
    simp only [Bool.or_eq_true, decide_eq_true_eq, not_or] at hname
    have hlast : p.segments = before.reverse ++ [name] := by
      rw [← List.reverse_reverse p.segments, hsegments, List.reverse_cons]
    cases h
    exact ⟨_, name, parent, hcheck, hlast, hwalk, not_not.mp hdirectory, hname.1, hname.2,
      Nat.le_of_not_lt hlength, rfl, rfl⟩

/-- The last segment is a name, so it is appended to the place of the others. -/
theorem destination_of_walk {before : List Text} {name : Text} {parent : Place}
    (hsegments : p.segments = before ++ [name]) (hwalk : t.walk before = .ok parent) :
    p.destination = parent.follow name := by
  unfold Path.destination
  rw [hsegments, List.foldl_append, ← walkFrom_eq_ok hwalk]
  rfl

/-- What may be made at a path is made at its destination. -/
theorem target_eq_named {regular : Bool} {found : Option FileEntry}
    (h : t.target p regular = .ok (.named place found)) :
    place = p.destination ∧ place ≠ [] ∧ t.entry? place = found := by
  obtain ⟨before, name, parent, -, hsegments, hwalk, -, ⟨hhere, hup⟩, -, -, hplace, hfound⟩ :=
    target_cases h
  refine ⟨?_, by simp [hplace], hfound⟩
  rw [destination_of_walk hsegments hwalk, Place.follow, if_neg hhere, if_neg hup, hplace]

/-- **A file is written at its destination**, where there was a file or nothing. -/
theorem write_eq_ok {content : Bytes} (h : t.write p content = .ok u) :
    p.destination ≠ [] ∧ t.entry? p.destination ≠ some .directory ∧
      u = t.put p.destination (.regular content) := by
  unfold write at h
  obtain ⟨target, htarget, h⟩ := bind_eq_ok.mp h
  split at h
  · cases h
  · cases h
  · rename_i place found hfound
    obtain ⟨rfl, hplace, rfl⟩ := target_eq_named htarget
    cases h
    exact ⟨hplace, hfound, rfl⟩

/-- A directory is made at its destination, where there was nothing. -/
theorem makeDirectory_eq_ok (h : t.makeDirectory p = .ok u) :
    p.destination ≠ [] ∧ t.entry? p.destination = none ∧ u = t.put p.destination .directory := by
  unfold makeDirectory at h
  obtain ⟨target, htarget, h⟩ := bind_eq_ok.mp h
  split at h
  · cases h
  · cases h
  · obtain ⟨rfl, hplace, hfound⟩ := target_eq_named htarget
    cases h
    exact ⟨hplace, hfound, rfl⟩

/-! ## What stays -/

/-- Every directory is still there, and at every other place where something was there still is
    something. Contents may differ. -/
structure Extends (t u : FileTree) : Prop where
  directory : ∀ {place}, t.entry? place = some .directory → u.entry? place = some .directory
  present : ∀ {place}, t.entry? place ≠ none → u.entry? place ≠ none

/-- The second tree is the first with more directories, or just the first. -/
def AddsDirectories (t u : FileTree) : Prop :=
  ∀ place, u.entry? place = t.entry? place ∨ t.entry? place = none ∧ u.entry? place = some .directory

theorem AddsDirectories.refl (t : FileTree) : t.AddsDirectories t := fun _ => .inl rfl

/-- What was there is there unchanged. -/
theorem AddsDirectories.keeps (h : t.AddsDirectories u) (hentry : t.entry? place = some entry) :
    u.entry? place = some entry := by
  rcases h place with hu | ⟨hnone, -⟩
  · rw [hu, hentry]
  · rw [hentry] at hnone
    cases hnone

theorem AddsDirectories.extends (h : t.AddsDirectories u) : t.Extends u where
  directory := h.keeps
  present := by
    intro place ht
    obtain ⟨entry, hentry⟩ := Option.ne_none_iff_exists'.mp ht
    rw [h.keeps hentry]
    exact Option.some_ne_none entry

/-- The second tree is the first with more directories, all of them at the given places, or just the
    first. -/
def AddsWithin (places : Place → Prop) (t u : FileTree) : Prop :=
  ∀ place, u.entry? place = t.entry? place ∨
    places place ∧ t.entry? place = none ∧ u.entry? place = some .directory

theorem AddsWithin.refl (places : Place → Prop) (t : FileTree) : t.AddsWithin places t :=
  fun _ => .inl rfl

theorem AddsWithin.trans {places : Place → Prop} (htu : t.AddsWithin places u)
    (huv : u.AddsWithin places v) : t.AddsWithin places v := by
  intro place
  rcases huv place with hv | ⟨hplace, hu, hv⟩
  · rw [hv]
    exact htu place
  · rcases htu place with ht | ⟨-, ht, -⟩
    · exact .inr ⟨hplace, ht.symm.trans hu, hv⟩
    · exact .inr ⟨hplace, ht, hv⟩

theorem AddsWithin.addsDirectories {places : Place → Prop} (h : t.AddsWithin places u) :
    t.AddsDirectories u := fun place => (h place).imp_right And.right

theorem addsWithin_of_makeDirectory {places : Place → Prop} (hdestination : places p.destination)
    (h : t.makeDirectory p = .ok u) : t.AddsWithin places u := by
  obtain ⟨hplace, hnone, rfl⟩ := makeDirectory_eq_ok h
  intro place
  rw [entry_put t hplace]
  by_cases hp : place = p.destination
  · subst hp
    exact .inr ⟨hdestination, hnone, if_pos rfl⟩
  · exact .inl (if_neg hp)

theorem extends_of_write {content : Bytes} (h : t.write p content = .ok u) : t.Extends u := by
  obtain ⟨hplace, hfile, rfl⟩ := write_eq_ok h
  constructor
  · intro place hdirectory
    rw [entry_put t hplace, if_neg, hdirectory]
    rintro rfl
    exact hfile hdirectory
  · intro place hpresent
    rw [entry_put t hplace]
    split
    · exact Option.some_ne_none _
    · exact hpresent

/-- A step needs its directory and its next place, and both are still there. -/
theorem Extends.step (h : t.Extends u) {segment : Text} {next : Place}
    (hstep : t.step place segment = .ok next) : u.step place segment = .ok next := by
  rw [step_eq_ok_iff] at hstep ⊢
  obtain ⟨hdirectory, hnext, hname⟩ := hstep
  refine ⟨h.directory hdirectory, hnext, fun hhere hup => ?_⟩
  obtain ⟨hlength, hpresent⟩ := hname hhere hup
  exact ⟨hlength, h.present hpresent⟩

/-- **A walk that succeeded still does.** -/
theorem Extends.walkFrom (h : t.Extends u) {segments : List Text} {last : Place}
    (hwalk : segments.foldlM t.step place = .ok last) : segments.foldlM u.step place = .ok last := by
  induction segments generalizing place with
  | nil => exact hwalk
  | cons segment segments ih =>
    rw [List.foldlM_cons] at hwalk ⊢
    obtain ⟨next, hstep, hrest⟩ := bind_eq_ok.mp hwalk
    exact bind_eq_ok.mpr ⟨next, h.step hstep, ih hrest⟩

/-- **A file that could be read still can**, and it reads as what its place holds now. -/
theorem Extends.read (h : t.Extends u) {old content : Bytes} (hold : t.read p = .ok old)
    (hnew : u.entry? p.destination = some (.regular content)) : u.read p = .ok content := by
  obtain ⟨hcheck, hwalk, -, hslash⟩ := find_eq_ok_iff.mp (read_eq_ok_iff.mp hold)
  exact read_eq_ok_iff.mpr (find_eq_ok_iff.mpr ⟨hcheck, h.walkFrom hwalk, hnew, hslash⟩)

theorem AddsDirectories.read (h : t.AddsDirectories u) {content : Bytes}
    (hread : t.read p = .ok content) : u.read p = .ok content :=
  h.extends.read hread (h.keeps (entry_of_read hread))

/-! ## One output -/

/-- Directories were made, and then a file was written. -/
def Wrote (t : FileTree) (p : Path) (content : Bytes) (u : FileTree) : Prop :=
  ∃ prepared, t.AddsDirectories prepared ∧ prepared.write p content = .ok u

/-- **A file after an output was written.** It has the content of the output if both paths lead to one
    place, and its own content otherwise. -/
theorem Wrote.read {q : Path} {old content : Bytes} (h : t.Wrote p content u)
    (hread : t.read q = .ok old) :
    u.read q = .ok (if p.destination = q.destination then content else old) := by
  obtain ⟨prepared, hadds, hwrite⟩ := h
  -- the directories leave the file alone; the write changes one place
  have hprepared : prepared.read q = .ok old := hadds.read hread
  obtain ⟨hplace, -, hput⟩ := write_eq_ok hwrite
  refine (extends_of_write hwrite).read hprepared ?_
  rw [hput, entry_put _ hplace]
  by_cases hsame : p.destination = q.destination
  · rw [if_pos hsame.symm, if_pos hsame]
  · rw [if_neg (Ne.symm hsame), if_neg hsame]
    exact entry_of_read hprepared

/-- Where a file can be made, it can be read once it is there. -/
theorem read_of_target {found : Option FileEntry} {content : Bytes}
    (htarget : t.target p true = .ok (.named place found)) (h : t.Extends u)
    (hentry : u.entry? p.destination = some (.regular content)) : u.read p = .ok content := by
  obtain ⟨before, name, parent, hcheck, hsegments, hwalk, hdirectory, -, hslash, hlength, -, -⟩ :=
    target_cases htarget
  -- the walk to the directory still succeeds, and the last step finds the file
  have hstep : u.step parent name = .ok p.destination := by
    refine step_eq_ok_iff.mpr ⟨h.directory hdirectory, destination_of_walk hsegments hwalk, fun _ _ => ?_⟩
    rw [hentry]
    exact ⟨hlength, Option.some_ne_none _⟩
  have hwalk' : u.walk p.segments = .ok p.destination := by
    unfold walk
    rw [hsegments, List.foldlM_append]
    refine bind_eq_ok.mpr ⟨parent, h.walkFrom hwalk, ?_⟩
    rw [List.foldlM_cons]
    exact bind_eq_ok.mpr ⟨p.destination, hstep, rfl⟩
  exact read_eq_ok_iff.mpr (find_eq_ok_iff.mpr ⟨hcheck, hwalk', hentry, fun hboth => hslash hboth.1⟩)

/-- **A file that was written reads as it was written.** -/
theorem read_of_write {content : Bytes} (h : t.write p content = .ok u) : u.read p = .ok content := by
  obtain ⟨hplace, -, hput⟩ := write_eq_ok h
  have hextends := extends_of_write h
  have hentry : u.entry? p.destination = some (.regular content) := by
    rw [hput, entry_put t hplace, if_pos rfl]
  unfold write at h
  obtain ⟨target, htarget, h⟩ := bind_eq_ok.mp h
  split at h
  · cases h
  · cases h
  · exact read_of_target htarget hextends hentry

theorem Wrote.read_self {content : Bytes} (h : t.Wrote p content u) : u.read p = .ok content := by
  obtain ⟨prepared, -, hwrite⟩ := h
  exact read_of_write hwrite

end FileTree

end PacketTrace

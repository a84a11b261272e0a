import Mathlib.Algebra.BigOperators.Group.List.Basic
import Mathlib.Algebra.GroupWithZero.Nat
import Mathlib.Data.List.Induction
import Mathlib.Data.List.Nodup
import PacketTrace.Tally

/-!
# `Proofs.Tally` — what the tally of a list holds

A tally is filled one key at a time, so every law here is proved for one more key (`bump`) and then, by
induction from the end of the list, for all keys of a list (`ofKeys`).

## Contents
- **Sums.** `sumWhere_ofKeys`: the counts of the keys in any class add up to the number of keys of that
  class in the list. `total_ofKeys` and `countOf_ofKeys` say so for all keys and for a single one.
- **Keys.** `nodup_ofKeys` and `positive_ofKeys`: no key is listed twice and none is listed in vain; so an
  entry holds the count of its key (`count_of_mem_ofKeys`). `map_fst_ofKeys` gives their order.
- **Entries.** `mem_ofKeys_iff` says which they are and `entries_ofKeys` in which order, and `perm_ofKeys` that
  the order of the keys decides about their order only.
-/

namespace PacketTrace
namespace Tally

variable {κ : Type} [DecidableEq κ]

theorem ofKeys_append_singleton (keys : List κ) (key : κ) :
    ofKeys (keys ++ [key]) = (ofKeys keys).increment key := by
  unfold ofKeys
  rw [List.foldl_append, List.foldl_cons, List.foldl_nil]

/-! ## Sums -/

omit [DecidableEq κ] in
/-- The sum of the counts of those keys that satisfy `p`. -/
def sumWhere (p : κ → Bool) (entries : List (κ × Nat)) : Nat :=
  ((entries.filter fun entry => p entry.1).map (·.2)).sum

omit [DecidableEq κ] in
theorem sumWhere_cons (p : κ → Bool) (entry : κ × Nat) (rest : List (κ × Nat)) :
    sumWhere p (entry :: rest) = (if p entry.1 then entry.2 else 0) + sumWhere p rest := by
  unfold sumWhere
  by_cases h : p entry.1 = true
  · rw [List.filter_cons_of_pos (by exact h), if_pos h, List.map_cons, List.sum_cons]
  · rw [List.filter_cons_of_neg (by exact h), if_neg h, Nat.zero_add]

/-- Counting a key adds one to the sums of the classes that it belongs to. -/
theorem sumWhere_bump (p : κ → Bool) (key : κ) (entries : List (κ × Nat)) :
    sumWhere p (bump key entries) = sumWhere p entries + if p key then 1 else 0 := by
  induction entries with
  | nil => rw [bump, sumWhere_cons]; exact Nat.add_comm _ _
  | cons entry rest ih =>
    obtain ⟨first, n⟩ := entry
    by_cases hf : first = key
    · subst hf
      rw [bump, if_pos rfl, sumWhere_cons, sumWhere_cons]
      by_cases hp : p first = true
      · simp only [hp, if_true]; omega
      · simp only [hp]; rfl
    · rw [bump, if_neg hf, sumWhere_cons, sumWhere_cons, ih, Nat.add_assoc]

/-- **Sums of a tally.** The counts of the keys in a class add up to the number of such keys in the
    list. -/
theorem sumWhere_ofKeys (p : κ → Bool) (keys : List κ) :
    sumWhere p (ofKeys keys).entries = keys.countP p := by
  induction keys using List.reverseRecOn with
  | nil => rfl
  | append_singleton keys key ih =>
    rw [ofKeys_append_singleton, List.countP_append, List.countP_singleton]
    show sumWhere p (bump key (ofKeys keys).entries) = _
    rw [sumWhere_bump, ih]

omit [DecidableEq κ] in
theorem total_eq_sum (t : Tally κ) : t.total = (t.entries.map (·.2)).sum := by
  rw [List.sum, List.foldr_map]
  rfl

/-- **The total of a tally** is the number of keys in the list. -/
theorem total_ofKeys (keys : List κ) : (ofKeys keys).total = keys.length := by
  induction keys using List.reverseRecOn with
  | nil => rfl
  | append_singleton keys key ih =>
    rw [ofKeys_append_singleton, total_increment, ih, List.length_append, List.length_singleton]

/-- A key is counted as often as it occurs. -/
theorem countOf_ofKeys (keys : List κ) (key : κ) :
    countOf (ofKeys keys).entries key = keys.count key := by
  induction keys using List.reverseRecOn with
  | nil => rfl
  | append_singleton keys last ih =>
    rw [ofKeys_append_singleton, List.count_append, ← ih]
    have h := count_increment (ofKeys keys) last key
    rw [count, count] at h
    rw [h, List.count_singleton]
    by_cases hk : key = last
    · subst hk; simp
    · rw [if_neg hk, if_neg (by simpa using Ne.symm hk)]

/-- An entry holds the count of its key, if no key is listed twice. -/
theorem countOf_of_mem {entries : List (κ × Nat)} (hkeys : (entries.map (·.1)).Nodup)
    {entry : κ × Nat} (h : entry ∈ entries) : countOf entries entry.1 = entry.2 := by
  induction entries with
  | nil => cases h
  | cons first rest ih =>
    rw [List.map_cons, List.nodup_cons] at hkeys
    rw [countOf_cons]
    rcases List.mem_cons.mp h with rfl | hrest
    · rw [if_pos rfl]
    · have hne : entry.1 ≠ first.1 := fun heq => hkeys.1 (heq ▸ List.mem_map_of_mem hrest)
      rw [if_neg hne, ih hkeys.2 hrest]

/-! ## Keys -/

/-- A key keeps its place when it is counted again, and a new key goes to the end. -/
theorem map_fst_bump (key : κ) (entries : List (κ × Nat)) :
    (bump key entries).map (·.1) =
      if key ∈ entries.map (·.1) then entries.map (·.1) else entries.map (·.1) ++ [key] := by
  induction entries with
  | nil => rfl
  | cons entry rest ih =>
    obtain ⟨first, n⟩ := entry
    by_cases hf : first = key
    · subst hf
      rw [bump, if_pos rfl, if_pos (by simp)]
      rfl
    · rw [bump, if_neg hf, List.map_cons, ih]
      by_cases hr : key ∈ rest.map (·.1)
      · rw [if_pos hr, if_pos (by exact List.mem_cons_of_mem _ hr)]
        rfl
      · have hn : key ∉ ((first, n) :: rest).map (·.1) := by
          rw [List.map_cons, List.mem_cons]
          rintro (h | h)
          · exact hf h.symm
          · exact hr h
        rw [if_neg hr, if_neg hn]
        rfl

/-- **No key is listed twice.** -/
theorem nodup_ofKeys (keys : List κ) : ((ofKeys keys).entries.map (·.1)).Nodup := by
  induction keys using List.reverseRecOn with
  | nil => exact List.nodup_nil
  | append_singleton keys key ih =>
    rw [ofKeys_append_singleton]
    show ((bump key (ofKeys keys).entries).map (·.1)).Nodup
    rw [map_fst_bump]
    split
    · exact ih
    · rename_i hk
      exact List.Nodup.append ih (List.nodup_singleton key)
        (List.disjoint_singleton.mpr hk)

/-- **The keys stand in the order of first appearance.** -/
theorem map_fst_ofKeys (keys : List κ) : (ofKeys keys).entries.map (·.1) = keys.eraseDups := by
  induction keys using List.reverseRecOn with
  | nil => rfl
  | append_singleton keys key ih =>
    rw [ofKeys_append_singleton, List.eraseDups_append, ← ih]
    show (bump key (ofKeys keys).entries).map (·.1) = _
    rw [map_fst_bump, ih]
    have hlisted : key ∈ keys.eraseDups ↔ key ∈ keys := List.mem_eraseDups
    by_cases hk : key ∈ keys
    · simp [hlisted, hk, List.removeAll]
    · have hnew : [key].removeAll keys = [key] := by simp [hk, List.removeAll]
      rw [if_neg (mt hlisted.mp hk), hnew]
      rfl

omit [DecidableEq κ] in
/-- Every listed count is positive. -/
def Positive (entries : List (κ × Nat)) : Prop := ∀ entry ∈ entries, 1 ≤ entry.2

theorem Positive.bump {entries : List (κ × Nat)} (h : Positive entries) (key : κ) :
    Positive (bump key entries) := by
  induction entries with
  | nil =>
    intro entry he
    rw [Tally.bump, List.mem_singleton] at he
    exact he ▸ Nat.le_refl 1
  | cons first rest ih =>
    obtain ⟨hfirst, hrest⟩ := List.forall_mem_cons.mp h
    by_cases hf : first.1 = key
    · rw [Tally.bump, if_pos hf]
      exact List.forall_mem_cons.mpr ⟨Nat.le_add_left 1 first.2, hrest⟩
    · rw [Tally.bump, if_neg hf]
      exact List.forall_mem_cons.mpr ⟨hfirst, ih hrest⟩

/-- **No key is listed in vain.** -/
theorem positive_ofKeys (keys : List κ) : Positive (ofKeys keys).entries := by
  induction keys using List.reverseRecOn with
  | nil => exact fun entry he => absurd he List.not_mem_nil
  | append_singleton keys key ih =>
    rw [ofKeys_append_singleton]
    exact ih.bump key

/-- **An entry counts its key** among the keys. -/
theorem count_of_mem_ofKeys {keys : List κ} {entry : κ × Nat} (h : entry ∈ (ofKeys keys).entries) :
    entry.2 = keys.count entry.1 :=
  (countOf_of_mem (nodup_ofKeys keys) h).symm.trans (countOf_ofKeys keys entry.1)

/-! ## Entries -/

/-- The keys of a list are listed, and no others. -/
theorem mem_keys_ofKeys {keys : List κ} {key : κ} :
    key ∈ (ofKeys keys).entries.map (·.1) ↔ key ∈ keys := by
  rw [map_fst_ofKeys]
  exact List.mem_eraseDups

/-- **The entries of a tally** are the keys with their counts. -/
theorem mem_ofKeys_iff {keys : List κ} {entry : κ × Nat} :
    entry ∈ (ofKeys keys).entries ↔ entry.1 ∈ keys ∧ entry.2 = keys.count entry.1 := by
  constructor
  · intro h
    exact ⟨mem_keys_ofKeys.mp (List.mem_map_of_mem h), count_of_mem_ofKeys h⟩
  · rintro ⟨hkey, hcount⟩
    obtain ⟨listed, hlisted, hsame⟩ := List.mem_map.mp (mem_keys_ofKeys.mpr hkey)
    have heq : entry = listed := by
      rw [Prod.ext_iff, hcount, count_of_mem_ofKeys hlisted, hsame]
      exact ⟨rfl, rfl⟩
    rw [heq]
    exact hlisted

/-- **The entries in order** of first appearance. -/
theorem entries_ofKeys (keys : List κ) :
    (ofKeys keys).entries = keys.eraseDups.map fun key => (key, keys.count key) := by
  rw [← map_fst_ofKeys, List.map_map]
  have hentry : ∀ entry ∈ (ofKeys keys).entries, entry = (entry.1, keys.count entry.1) :=
    fun entry he => Prod.ext rfl (count_of_mem_ofKeys he)
  calc (ofKeys keys).entries = (ofKeys keys).entries.map id := (List.map_id _).symm
    _ = _ := List.map_congr_left hentry

/-- A key that is not listed has the count zero, and no other has. -/
theorem countOf_ofKeys_eq_zero_iff {keys : List κ} {key : κ} :
    countOf (ofKeys keys).entries key = 0 ↔ key ∉ (ofKeys keys).entries.map (·.1) := by
  rw [countOf_ofKeys, mem_keys_ofKeys, List.count_eq_zero]

/-- **Only the order of the entries depends on the order of the keys.** -/
theorem perm_ofKeys {xs ys : List κ} (h : xs.Perm ys) :
    (ofKeys xs).entries.Perm (ofKeys ys).entries := by
  have hxs : (ofKeys xs).entries.Nodup := (nodup_ofKeys xs).of_map _
  have hys : (ofKeys ys).entries.Nodup := (nodup_ofKeys ys).of_map _
  rw [List.perm_ext_iff_of_nodup hxs hys]
  intro entry
  rw [mem_ofKeys_iff, mem_ofKeys_iff, h.mem_iff, h.count_eq]

end Tally
end PacketTrace

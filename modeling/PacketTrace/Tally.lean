/-!
# `Tally` — counts in the order of first appearance

A tally is a list of keys with their counts. A key is added at the end when it is counted for the first
time and keeps its place afterwards.

## Contents
- `Tally.increment` counts a key once more, `Tally.ofKeys` all keys of a list.
- `countOf` looks a key up in a list of counts; `Tally.count` does so in a tally and `count_increment`
  says how it grows.
- `Tally.total` is the number of keys counted, repetitions included.
-/

namespace PacketTrace

variable {κ : Type} [DecidableEq κ]

/-- The count of a key in a list of counts, zero if it is not listed. -/
def countOf (entries : List (κ × Nat)) (key : κ) : Nat := (entries.lookup key).getD 0

@[simp] theorem countOf_nil (key : κ) : countOf ([] : List (κ × Nat)) key = 0 := rfl

@[simp] theorem countOf_cons (first : κ) (n : Nat) (rest : List (κ × Nat)) (key : κ) :
    countOf ((first, n) :: rest) key = if key = first then n else countOf rest key := by
  by_cases h : key = first <;> simp [countOf, List.lookup_cons, h, beq_false_of_ne]

/-- Counts by key, in the order in which the keys first appeared. -/
structure Tally (κ : Type) where
  entries : List (κ × Nat) := []
  deriving DecidableEq, Repr

namespace Tally

/-- The entries after one more appearance of `key`. -/
def bump (key : κ) : List (κ × Nat) → List (κ × Nat)
  | [] => [(key, 1)]
  | (k, n) :: rest => if k = key then (k, n + 1) :: rest else (k, n) :: bump key rest

/-- Count one more appearance of a key. -/
def increment (t : Tally κ) (key : κ) : Tally κ := ⟨bump key t.entries⟩

/-- The tally of the keys in a list. -/
def ofKeys (keys : List κ) : Tally κ := keys.foldl increment {}

/-- How often a key has been counted. -/
def count (t : Tally κ) (key : κ) : Nat := countOf t.entries key

omit [DecidableEq κ] in
/-- The sum of all counts. -/
def total (t : Tally κ) : Nat := t.entries.foldr (fun entry sum => entry.2 + sum) 0

/-- Counting a key once more adds one to its count and to no other. -/
theorem count_increment (t : Tally κ) (key k : κ) :
    (t.increment key).count k = t.count k + if k = key then 1 else 0 := by
  obtain ⟨entries⟩ := t
  show countOf (bump key entries) k = countOf entries k + _
  induction entries with
  | nil => simp [bump]
  | cons entry rest ih =>
    obtain ⟨first, n⟩ := entry
    by_cases hf : first = key
    · subst hf
      by_cases h : k = first <;> simp [bump, h]
    · by_cases h : k = first
      · simp [bump, hf, h]
      · simpa [bump, hf, h] using ih

/-- Counting a key adds one to the sum. -/
theorem total_increment (t : Tally κ) (key : κ) : (t.increment key).total = t.total + 1 := by
  obtain ⟨entries⟩ := t
  show (bump key entries).foldr _ 0 = entries.foldr _ 0 + 1
  induction entries with
  | nil => rfl
  | cons entry rest ih =>
    obtain ⟨first, n⟩ := entry
    by_cases hf : first = key
    · simp only [bump, hf, if_true, List.foldr_cons]; omega
    · simp only [bump, hf, if_false, List.foldr_cons]; rw [ih]; omega

end Tally

end PacketTrace

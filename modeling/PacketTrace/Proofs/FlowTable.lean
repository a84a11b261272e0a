import Mathlib.Data.Finset.Card
import Mathlib.Data.List.Induction
import PacketTrace.FlowTable

/-!
# `Proofs.FlowTable` — the table of flows and the history of keys

A flow table is a summary of the keys that were observed. The relation `Tracks` says which one: there is
one entry for every key that occurs in the history, the entry of a key has seen the number of that key
and nothing else, and there are no other entries.

## Contents
- **Repeats.** `repeatCount` counts the places of a list at which an earlier entry returns. It is
  defined by places alone; `repeatCount_append_singleton` is how it grows, and
  `repeatCount_add_card` relates it to the number of different entries.
- **Tracking.** `Tracks.observe`: one observation, with its outcome, extends the history by one key.
- **Runs.** `observeAll` records a whole list of keys. What it answers at each place and what it leaves behind
  are told by the list alone (`observeAll_history`).
-/

namespace PacketTrace

/-! ## Repeats -/

section

variable {κ : Type} [DecidableEq κ]

/-- The number of places at which an entry stands that also stands at an earlier place. -/
def repeatCount (keys : List κ) : Nat :=
  (List.range keys.length).countP fun i => decide (∃ j, j < i ∧ keys[j]? = keys[i]?)

omit [DecidableEq κ] in
/-- What stands before the last place does not depend on the last entry. -/
theorem repeated_append_singleton {keys : List κ} {key : κ} {i : Nat} (hi : i < keys.length) :
    (∃ j, j < i ∧ (keys ++ [key])[j]? = (keys ++ [key])[i]?) ↔
      ∃ j, j < i ∧ keys[j]? = keys[i]? := by
  have hleft : ∀ j, j ≤ i → (keys ++ [key])[j]? = keys[j]? := fun j hj =>
    List.getElem?_append_left (Nat.lt_of_le_of_lt hj hi)
  constructor
  · rintro ⟨j, hj, h⟩
    rw [hleft j (Nat.le_of_lt hj), hleft i (Nat.le_refl i)] at h
    exact ⟨j, hj, h⟩
  · rintro ⟨j, hj, h⟩
    exact ⟨j, hj, by rw [hleft j (Nat.le_of_lt hj), hleft i (Nat.le_refl i)]; exact h⟩

omit [DecidableEq κ] in
/-- The last entry is a repeat if it occurs in what comes before it. -/
theorem repeated_last_iff {keys : List κ} {key : κ} :
    (∃ j, j < keys.length ∧ (keys ++ [key])[j]? = (keys ++ [key])[keys.length]?) ↔ key ∈ keys := by
  rw [List.getElem?_concat_length, List.mem_iff_getElem?]
  constructor
  · rintro ⟨j, hj, h⟩
    exact ⟨j, by rw [List.getElem?_append_left hj] at h; exact h⟩
  · rintro ⟨j, h⟩
    have hj : j < keys.length := (List.getElem?_eq_some_iff.mp h).1
    exact ⟨j, hj, by rw [List.getElem?_append_left hj]; exact h⟩

theorem repeatCount_append_singleton (keys : List κ) (key : κ) :
    repeatCount (keys ++ [key]) = repeatCount keys + if key ∈ keys then 1 else 0 := by
  unfold repeatCount
  rw [List.length_append, List.length_singleton, List.range_succ, List.countP_append,
    List.countP_singleton]
  congr 1
  · refine List.countP_congr fun i hi => ?_
    rw [decide_eq_true_iff, decide_eq_true_iff]
    exact repeated_append_singleton (List.mem_range.mp hi)
  · simp only [decide_eq_true_iff, repeated_last_iff]

/-- **Every entry is a repeat or the first of its kind.** -/
theorem repeatCount_add_card (keys : List κ) :
    repeatCount keys + keys.toFinset.card = keys.length := by
  induction keys using List.reverseRecOn with
  | nil => rfl
  | append_singleton keys key ih =>
    rw [repeatCount_append_singleton, List.length_append, List.length_singleton,
      List.toFinset_append, List.toFinset_cons, List.toFinset_nil, ← ih]
    by_cases hk : key ∈ keys
    · rw [if_pos hk, Finset.union_eq_left.mpr (by simpa using hk)]
      omega
    · rw [if_neg hk, Finset.card_union_of_disjoint (by simpa using hk)]
      simp only [insert_empty_eq, Finset.card_singleton]
      omega

end

/-! ## Tracking -/

namespace FlowTable

/-- The table holds exactly the flows of these keys, and each of them was new once. -/
structure Tracks (t : FlowTable) (keys : List FlowKey) : Prop where
  get? : ∀ key, t.get? key = if key ∈ keys then some { seen := [key.seq], packets := 1 } else none
  size : t.size = keys.toFinset.card

theorem tracks_empty : Tracks {} [] where
  get? _ := rfl
  size := rfl

/-- The number of flows grows when a flow without an entry is observed. -/
theorem size_observe (t : FlowTable) (key : FlowKey) :
    (t.observe key).2.size = t.size + if (t.get? key).isSome then 0 else 1 := by
  show (t.flows.insert key _).size = t.flows.size + if t.flows[key]?.isSome then 0 else 1
  rw [Std.TreeMap.size_insert, ← Std.TreeMap.contains_eq_isSome_getElem?]
  split <;> rfl

/-- **One observation.** A packet is a retransmission exactly when its key occurs in the history, and
    the table then tracks the history with that key at its end. -/
theorem Tracks.observe {t : FlowTable} {keys : List FlowKey} (h : t.Tracks keys) (key : FlowKey) :
    (t.observe key).1 = (if key ∈ keys then .retransmission else .new) ∧
      (t.observe key).2.Tracks (keys ++ [key]) := by
  have hstate : ((t.get? key).getD {}).observe key.seq =
      ((if key ∈ keys then .retransmission else .new), { seen := [key.seq], packets := 1 }) := by
    rw [h.get? key]
    by_cases hk : key ∈ keys
    · rw [if_pos hk, if_pos hk]
      exact if_pos (List.mem_singleton_self key.seq)
    · rw [if_neg hk, if_neg hk]
      rfl
  refine ⟨congrArg Prod.fst hstate, ⟨fun other => ?_, ?_⟩⟩
  · by_cases ho : other = key
    · subst ho
      have hlast : other ∈ keys ++ [other] := List.mem_append_right keys (List.mem_singleton_self other)
      rw [get?_observe_self, hstate, if_pos hlast]
    · rw [get?_observe_of_ne t ho, h.get? other]
      simp only [List.mem_append, List.mem_singleton, ho, or_false]
  · rw [size_observe, h.size, h.get? key, List.toFinset_append, List.toFinset_cons,
      List.toFinset_nil]
    by_cases hk : key ∈ keys
    · rw [if_pos hk, Finset.union_eq_left.mpr (by simpa using hk)]
      rfl
    · rw [if_neg hk, Finset.card_union_of_disjoint (by simpa using hk)]
      rfl

/-- Exactly the packets that are new make the table larger. -/
theorem Tracks.size_observe {t : FlowTable} {keys : List FlowKey} (h : t.Tracks keys) (key : FlowKey) :
    (t.observe key).2.size = t.size + if (t.observe key).1 = .new then 1 else 0 := by
  rw [FlowTable.size_observe, (h.observe key).1, h.get? key]
  by_cases hk : key ∈ keys
  · simp [hk]
  · simp [hk]

/-! ## Runs -/

/-- Record packets one after the other: what each of them was to its flow, and the table that is left. -/
def observeAll (t : FlowTable) : List FlowKey → List Observation × FlowTable
  | [] => ([], t)
  | key :: keys =>
    let (observation, next) := t.observe key
    let (observations, last) := next.observeAll keys
    (observation :: observations, last)

theorem observeAll_cons (t : FlowTable) (key : FlowKey) (keys : List FlowKey) :
    t.observeAll (key :: keys) =
      ((t.observe key).1 :: ((t.observe key).2.observeAll keys).1, ((t.observe key).2.observeAll keys).2) :=
  rfl

/-- The keys of a run are added to the history. -/
theorem Tracks.observeAll {t : FlowTable} {before : List FlowKey} (h : t.Tracks before)
    (keys : List FlowKey) : (t.observeAll keys).2.Tracks (before ++ keys) := by
  induction keys generalizing t before with
  | nil =>
    rw [List.append_nil]
    exact h
  | cons key keys ih =>
    have hrest := ih (h.observe key).2
    rw [List.append_assoc, List.singleton_append] at hrest
    exact hrest

/-- At each place of a run, a packet returns if its key is in the history or at an earlier place. -/
theorem Tracks.getElem?_observeAll {t : FlowTable} {before : List FlowKey} (h : t.Tracks before)
    (keys : List FlowKey) (k : Nat) :
    (t.observeAll keys).1[k]? =
      keys[k]?.map fun key => if key ∈ before ++ keys.take k then .retransmission else .new := by
  induction keys generalizing t before k with
  | nil => simp [FlowTable.observeAll]
  | cons key keys ih =>
    rw [observeAll_cons]
    cases k with
    | zero => simp [(h.observe key).1]
    | succ k =>
      -- the first key has moved from the list into the history
      have hrest := ih (h.observe key).2 k
      rw [List.append_assoc, List.singleton_append] at hrest
      rw [List.getElem?_cons_succ, List.getElem?_cons_succ, List.take_succ_cons]
      exact hrest

theorem Tracks.size_observeAll {t : FlowTable} {before : List FlowKey} (h : t.Tracks before)
    (keys : List FlowKey) :
    (t.observeAll keys).2.size = t.size + (t.observeAll keys).1.count .new := by
  induction keys generalizing t before with
  | nil => rfl
  | cons key keys ih =>
    rw [observeAll_cons, List.count_cons, ih (h.observe key).2, h.size_observe key]
    simp only [beq_iff_eq]
    omega

/-- **What a table of flows knows after any packets.** The packet at a place was new exactly if its key stands
    at no earlier place. Afterwards there is an entry for every key that was observed and for no other, and it
    holds the number of its key alone and one packet, however often the key was observed. There are as many
    entries as packets that were new, which is as many as different keys. A further packet gives its own key
    such an entry and leaves all others as they are. -/
theorem observeAll_history (keys : List FlowKey) :
    let observations := (FlowTable.observeAll {} keys).1
    let t := (FlowTable.observeAll {} keys).2
    (∀ k : Nat, observations[k]? =
      keys[k]?.map fun key => if key ∈ keys.take k then .retransmission else .new) ∧
    (∀ key, t.get? key = if key ∈ keys then some { seen := [key.seq], packets := 1 } else none) ∧
    t.size = observations.count .new ∧
    t.size = keys.toFinset.card ∧
    ∀ key other, (t.observe key).2.get? other =
      if other = key then some { seen := [key.seq], packets := 1 } else t.get? other := by
  intro observations t
  have htracks : t.Tracks keys := tracks_empty.observeAll keys
  refine ⟨tracks_empty.getElem?_observeAll keys, htracks.get?, ?_, htracks.size, ?_⟩
  · have hsize := tracks_empty.size_observeAll keys
    rw [tracks_empty.size, List.toFinset_nil, Finset.card_empty, Nat.zero_add] at hsize
    exact hsize
  · intro key other
    by_cases ho : other = key
    · subst ho
      have hmem : other ∈ keys ++ [other] := List.mem_append_right keys (List.mem_singleton_self other)
      rw [if_pos rfl, (htracks.observe other).2.get? other, if_pos hmem]
    · rw [if_neg ho, get?_observe_of_ne t ho]

end FlowTable

end PacketTrace

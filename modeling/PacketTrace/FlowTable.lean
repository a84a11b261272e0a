import Std.Data.TreeMap

/-!
# `FlowTable` — which packets were seen before

A flow is a node and a sequence number. Connections are not told apart: packets that reuse a number on
the same node belong to the same flow. The table remembers for every flow which sequence numbers were
seen and how many packets were new, and it calls a packet a retransmission when its number was seen.

## Contents
- **Flows.** `FlowKey` with its order, by node and then by number; `FlowState` for one flow.
- **The table.** `FlowTable.observe` records a packet; `get?` and `size` look at the table.
-/

namespace PacketTrace

/-! ## Flows -/

/-- What packets have in common that belong together. -/
structure FlowKey where
  nodeId : Nat
  seq : Nat
  deriving DecidableEq, Repr

/-- Flows are ordered by node, and at one node by sequence number. -/
def FlowKey.order : FlowKey → FlowKey → Ordering :=
  compareLex (compareOn FlowKey.nodeId) (compareOn FlowKey.seq)

instance : Std.TransCmp FlowKey.order :=
  inferInstanceAs (Std.TransCmp (compareLex (compareOn FlowKey.nodeId) (compareOn FlowKey.seq)))

instance : Std.LawfulEqCmp FlowKey.order where
  eq_of_compare {a b} h := by
    obtain ⟨node, seq⟩ := a
    obtain ⟨node', seq'⟩ := b
    simp only [FlowKey.order, compareLex, compareOn, Ordering.then_eq_eq, Nat.compare_eq_eq] at h
    rw [h.1, h.2]

/-- What is known about one flow. -/
structure FlowState where
  /-- The sequence numbers seen, each once, latest first. -/
  seen : List Nat := []
  /-- How many packets were new. -/
  packets : Nat := 0
  deriving DecidableEq, Repr

/-- What a packet is to its flow. -/
inductive Observation where
  | new
  | retransmission
  deriving DecidableEq, Repr

/-- Record a sequence number, unless it was seen before. -/
def FlowState.observe (s : FlowState) (seq : Nat) : Observation × FlowState :=
  if seq ∈ s.seen then (.retransmission, s)
  else (.new, { seen := seq :: s.seen, packets := s.packets + 1 })

/-! ## The table -/

/-- All flows of a trace. -/
structure FlowTable where
  flows : Std.TreeMap FlowKey FlowState FlowKey.order := {}

namespace FlowTable

/-- The state of a flow, if one of its packets was observed. -/
def get? (t : FlowTable) (key : FlowKey) : Option FlowState := t.flows[key]?

/-- The number of flows. -/
def size (t : FlowTable) : Nat := t.flows.size

/-- Record a packet of a flow. -/
def observe (t : FlowTable) (key : FlowKey) : Observation × FlowTable :=
  let (observation, state) := ((t.get? key).getD {}).observe key.seq
  (observation, ⟨t.flows.insert key state⟩)

/-- The state of a flow after one of its packets was observed. -/
theorem get?_observe_self (t : FlowTable) (key : FlowKey) :
    (t.observe key).2.get? key = some (((t.get? key).getD {}).observe key.seq).2 := by
  simp [observe, get?]

/-- Observing a packet changes no other flow. -/
theorem get?_observe_of_ne (t : FlowTable) {key other : FlowKey} (h : other ≠ key) :
    (t.observe key).2.get? other = t.get? other := by
  simp [observe, get?, Std.TreeMap.getElem?_insert, h.symm]

end FlowTable

end PacketTrace

import PacketTrace.Proofs.Report.Split

/-!
# `Proofs.Report.Times` — the first and the latest time of a trace

The first time of a report is set once, by the first event. The latest time is searched for among all events,
beginning with zero, which need not be the time of any. It is found all the same: the time of a line is a number
without a minus sign, so the first event already replaces the zero by its own time, and from then on the search
holds the time of an event that is not below the others (`isGreatest_foldl_laterTime`). More lines can only
move it up (`le_foldl_append`).

## Contents
- **The search.** What it finds among the times of events, and what more times make of it.
- **Reports.** `aggregate_times`.
-/

namespace PacketTrace

/-! ## The search -/

/-- **The search from zero finds the greatest time**, whatever it is, zero and infinity included. -/
theorem isGreatest_foldl_laterTime {t : Float} {times : List Float} (h : ∀ u ∈ t :: times, Unsigned u) :
    IsGreatest {u | u ∈ t :: times} ((t :: times).foldl laterTime 0.0) := by
  rw [List.forall_mem_cons] at h
  rw [List.foldl_cons, zero_laterTime h.1]
  constructor
  · exact foldl_laterTime_mem t times
  · exact h.1.le_foldl_laterTime h.2

/-- More times can only move the latest time up. -/
theorem le_foldl_append {xs ys : List Float} (hxs : ∀ t ∈ xs, Unsigned t) (hys : ∀ t ∈ ys, Unsigned t) :
    xs.foldl laterTime 0.0 ≤ (xs ++ ys).foldl laterTime 0.0 := by
  rw [List.foldl_append]
  have hfound : Unsigned (xs.foldl laterTime 0.0) := unsigned_zero.foldl_laterTime hxs
  exact hfound.le_foldl_laterTime hys _ List.mem_cons_self

/-! ## Reports -/

theorem startTime_aggregate (lines : List Text) :
    (aggregate lines).startTime = ((lines.filterMap Event.ofLine?).map (·.time)).head? :=
  (Session.records_feedLines 10 1 lines).startTime

theorem endTime_aggregate (lines : List Text) :
    (aggregate lines).endTime = latest? ((lines.filterMap Event.ofLine?).map (·.time)) :=
  (Session.records_feedLines 10 1 lines).endTime

/-- **The times of a trace with an event.** The first time is that of the first event. The latest time is the
    time of some event, of whatever packet kind, and not below that of any; so it is not below the first. All
    times are numbers and none is negative. When more lines follow, the first time stays the same and the latest
    time does not decrease. -/
theorem aggregate_times {lines : List Text} {first : Event} {rest : List Event}
    (h : lines.filterMap Event.ofLine? = first :: rest) :
    let r := aggregate lines
    let times := (first :: rest).map (·.time)
    (∀ t ∈ times, t.isNaN = false ∧ 0.0 ≤ t) ∧
    r.startTime = some first.time ∧
    ∃ latest, r.endTime = some latest ∧ IsGreatest {t | t ∈ times} latest ∧ first.time ≤ latest ∧
      ∀ further, (aggregate (lines ++ further)).startTime = r.startTime ∧
        ∃ latest', (aggregate (lines ++ further)).endTime = some latest' ∧ latest ≤ latest' := by
  intro r times
  have hunsigned : ∀ t ∈ times, Unsigned t := by
    have hall := unsigned_times lines
    rw [h] at hall
    exact hall
  have hstart : r.startTime = some first.time := by
    rw [startTime_aggregate, h]
    rfl
  have hgreatest : IsGreatest {t | t ∈ times} (times.foldl laterTime 0.0) :=
    isGreatest_foldl_laterTime hunsigned
  refine ⟨fun t ht => ⟨(hunsigned t ht).isNaN_eq_false, (hunsigned t ht).zero_le⟩, hstart,
    times.foldl laterTime 0.0, ?_, hgreatest, hgreatest.2 List.mem_cons_self, fun further => ⟨?_, ?_⟩⟩
  · rw [endTime_aggregate, h]
    rfl
  · rw [startTime_aggregate, List.filterMap_append, h, hstart]
    rfl
  · refine ⟨_, ?_, le_foldl_append hunsigned (unsigned_times further)⟩
    rw [endTime_aggregate, List.filterMap_append, h, List.map_append]
    rfl

/-- The first event is neither the earliest nor the latest, and the latest is a control packet. -/
theorem times_out_of_order :
    let lines := ["neither blank nor an event".toList, "r 2.0 /NodeList/0/x length: 40 Seq=1".toList,
      "+ 5.5 /NodeList/0/x length: 40 [SYN] Seq=1".toList, "- 1.0 /NodeList/0/x length: 40 Seq=2".toList]
    let times := (lines.filterMap Event.ofLine?).map (·.time)
    let r := aggregate lines
    times = [2.0, 5.5, 1.0] ∧ r.startTime = some 2.0 ∧ r.endTime = some 5.5 ∧
      IsGreatest {t | t ∈ times} 5.5 := by
  intro lines times r
  obtain ⟨first, rest, hevents⟩ : ∃ first rest, lines.filterMap Event.ofLine? = first :: rest := ⟨_, _, rfl⟩
  have htimes : times = (first :: rest).map (·.time) := congrArg (List.map (·.time)) hevents
  obtain ⟨-, -, latest, hend, hgreatest, -⟩ := aggregate_times hevents
  have hlatest : r.endTime = some 5.5 := by decide +kernel
  cases hend.symm.trans hlatest
  rw [← htimes] at hgreatest
  exact ⟨by decide +kernel, by decide +kernel, hlatest, hgreatest⟩

end PacketTrace

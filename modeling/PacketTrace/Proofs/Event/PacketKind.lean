import PacketTrace.Proofs.Event.BlankEnd
import PacketTrace.Report.Aggregate

/-!
# `Proofs.Event.PacketKind` — the flags of an event and its packet kind

The flags of an event come from three places: the list in front of its sequence number, the words SYN, FIN
and RST anywhere in its line, and its own kind if that is an acknowledgement. Its kind comes from words in the
line alone. A listed flag need not stand there in its own spelling, since the words of a list are compared
without regard to case; so an event may have a flag that its line does not spell, and such a flag has no say
in the kind.

Of the flags that are spelled the event has every one that matters (`hasSpelled_of_ofLine?`). So the kind is
that of the flags which the event has and its line spells (`packetKind_eq_ofFlags`), and it is that of all its
flags exactly if the line spells the one that decides.

## Contents
- **The flags of an event.** `FlagSet.contains_ofList`, `FlagSet.contains_ofLine`.
- **The kind of some flags.** `PacketKind.ofFlags`, and when two sets of flags give the same kind.
- **Both.** `Event.packetKind_eq_ofFlags`.
-/

namespace PacketTrace

/-! ## The flags of an event -/

theorem FlagSet.contains_foldl_insert (flags : List Flag) (s : FlagSet) (f : Flag) :
    (flags.foldl insert s).contains f = (decide (f ∈ flags) || s.contains f) := by
  induction flags generalizing s with
  | nil => simp
  | cons g flags ih =>
    rw [List.foldl_cons, ih, contains_insert, ← Bool.or_assoc]
    congr 1
    simp only [List.mem_cons, Bool.decide_or, Bool.or_comm]

theorem FlagSet.contains_ofList (flags : List Flag) (f : Flag) :
    (ofList flags).contains f = decide (f ∈ flags) := by
  rw [ofList, contains_foldl_insert, contains_empty, Bool.or_false]

/-- The words that name a control flag. -/
theorem Flag.mem_keywords {line : Text} {f : Flag} :
    f ∈ keywords line ↔ f ∈ [syn, fin, rst] ∧ Text.contains f.name line = true :=
  List.mem_filter

/-- **Where the flags of an event come from.** -/
theorem FlagSet.contains_ofLine {line : Text} {listed : List Flag} {kind : PacketKind} {f : Flag} :
    (ofLine line listed kind).contains f = true ↔
      f ∈ listed ∨ (f ∈ [.syn, .fin, .rst] ∧ Text.contains f.name line = true) ∨
        (kind = .ack ∧ f = .ack) := by
  rw [ofLine, contains_ofList, decide_eq_true_iff, List.mem_append, List.mem_append, Flag.mem_keywords,
    or_assoc]
  simp only [List.mem_ite_nil_right, List.mem_singleton]

/-! ## The kind of some flags -/

namespace PacketKind

/-- The kind of a packet with some flags. The first of SYN, FIN, RST that is among them decides; an
    acknowledgement is a packet of at most 60 bytes with ACK; all else is data. -/
def ofFlags (has : Flag → Bool) (packetSize : Nat) : PacketKind :=
  if has .syn then .syn
  else if has .fin then .fin
  else if has .rst then .rst
  else if has .ack && packetSize ≤ 60 then .ack
  else .data

theorem ofLine_eq_ofFlags (line : Text) (packetSize : Nat) :
    ofLine line packetSize = ofFlags (fun f => Text.contains f.name line) packetSize :=
  rfl

/-- The flag that a kind stands for. -/
def flag? : PacketKind → Option Flag
  | syn => some .syn
  | fin => some .fin
  | rst => some .rst
  | ack => some .ack
  | data => none

variable {has spelled : Flag → Bool} {packetSize : Nat}

/-- What it takes for each kind. -/
def Decides (has : Flag → Bool) (packetSize : Nat) : PacketKind → Prop
  | syn => has .syn = true
  | fin => has .syn = false ∧ has .fin = true
  | rst => has .syn = false ∧ has .fin = false ∧ has .rst = true
  | ack => has .syn = false ∧ has .fin = false ∧ has .rst = false ∧ has .ack = true ∧ packetSize ≤ 60
  | data =>
    has .syn = false ∧ has .fin = false ∧ has .rst = false ∧ ¬ (has .ack = true ∧ packetSize ≤ 60)

theorem decides_ofFlags (has : Flag → Bool) (packetSize : Nat) :
    Decides has packetSize (ofFlags has packetSize) := by
  unfold ofFlags
  split
  · assumption
  rename_i hsyn
  split
  · exact ⟨Bool.eq_false_iff.mpr hsyn, by assumption⟩
  rename_i hfin
  split
  · exact ⟨Bool.eq_false_iff.mpr hsyn, Bool.eq_false_iff.mpr hfin, by assumption⟩
  rename_i hrst
  split
  · rename_i hack
    rw [Bool.and_eq_true, decide_eq_true_iff] at hack
    exact ⟨Bool.eq_false_iff.mpr hsyn, Bool.eq_false_iff.mpr hfin, Bool.eq_false_iff.mpr hrst, hack⟩
  · rename_i hack
    rw [Bool.and_eq_true, decide_eq_true_iff] at hack
    exact ⟨Bool.eq_false_iff.mpr hsyn, Bool.eq_false_iff.mpr hfin, Bool.eq_false_iff.mpr hrst, hack⟩

/-- The flags decide for one kind only. -/
theorem ofFlags_eq_iff_decides {kind : PacketKind} :
    ofFlags has packetSize = kind ↔ Decides has packetSize kind := by
  constructor
  · rintro rfl
    exact decides_ofFlags has packetSize
  · intro h
    unfold ofFlags
    cases kind with
    | syn => exact if_pos h
    | fin => simp [h.1, h.2]
    | rst => simp [h.1, h.2.1, h.2.2]
    | ack => simp [h.1, h.2.1, h.2.2.1, h.2.2.2]
    | data =>
      obtain ⟨hsyn, hfin, hrst, hack⟩ := h
      rw [← decide_eq_true_iff (p := packetSize ≤ 60), ← Bool.and_eq_true] at hack
      simp only [hsyn, hfin, hrst, Bool.false_eq_true, if_false]
      exact if_neg hack

/-- A control flag makes a control packet. -/
theorem countsForFlows_ofFlags {f : Flag} (hf : f ∈ [.syn, .fin, .rst]) (h : has f = true) :
    (ofFlags has packetSize).countsForFlows = false := by
  have hdecides := decides_ofFlags has packetSize
  simp only [List.mem_cons, List.not_mem_nil, or_false] at hf
  generalize ofFlags has packetSize = kind at hdecides ⊢
  cases kind with
  | syn => rfl
  | fin => rfl
  | rst => rfl
  | ack => rcases hf with rfl | rfl | rfl <;> simp [Decides, h] at hdecides
  | data => rcases hf with rfl | rfl | rfl <;> simp [Decides, h] at hdecides

/-- Of the flags that are spelled, those are had which matter for the kind: the control flags, and ACK if it
    decides. -/
structure HasSpelled (has spelled : Flag → Bool) (packetSize : Nat) : Prop where
  control : ∀ f ∈ [Flag.syn, .fin, .rst], spelled f = true → has f = true
  ack : ofFlags spelled packetSize = .ack → has .ack = true

/-- A control flag that is not had is not spelled. -/
theorem HasSpelled.not_spelled (h : HasSpelled has spelled packetSize) {f : Flag}
    (hf : f ∈ [.syn, .fin, .rst]) (hnot : has f = false) : spelled f = false := by
  rw [Bool.eq_false_iff] at hnot ⊢
  exact mt (h.control f hf) hnot

/-- **Flags that are not spelled have no say.** -/
theorem ofFlags_spelled (h : HasSpelled has spelled packetSize) :
    ofFlags spelled packetSize = ofFlags (fun f => has f && spelled f) packetSize := by
  have hdecides := decides_ofFlags spelled packetSize
  have hand : ∀ f ∈ [Flag.syn, .fin, .rst], (has f && spelled f) = spelled f := by
    intro f hf
    cases hspelled : spelled f with
    | false => exact Bool.and_false _
    | true => rw [h.control f hf hspelled]; rfl
  have hsyn := hand .syn (by decide)
  have hfin := hand .fin (by decide)
  have hrst := hand .rst (by decide)
  rw [eq_comm, ofFlags_eq_iff_decides]
  generalize hkind : ofFlags spelled packetSize = kind at hdecides ⊢
  cases kind with
  | syn => exact hsyn.trans hdecides
  | fin => exact ⟨hsyn.trans hdecides.1, hfin.trans hdecides.2⟩
  | rst => exact ⟨hsyn.trans hdecides.1, hfin.trans hdecides.2.1, hrst.trans hdecides.2.2⟩
  | ack =>
    obtain ⟨hnsyn, hnfin, hnrst, hack, hsmall⟩ := hdecides
    have hboth : (has .ack && spelled .ack) = true := Bool.and_eq_true_iff.mpr ⟨h.ack hkind, hack⟩
    exact ⟨hsyn.trans hnsyn, hfin.trans hnfin, hrst.trans hnrst, hboth, hsmall⟩
  | data =>
    obtain ⟨hnsyn, hnfin, hnrst, hnack⟩ := hdecides
    exact ⟨hsyn.trans hnsyn, hfin.trans hnfin, hrst.trans hnrst,
      fun hack => hnack ⟨(Bool.and_eq_true_iff.mp hack.1).2, hack.2⟩⟩

/-- **When all the flags decide alike.** They give the kind of the spelled ones exactly if the flag that decides
    among all of them is spelled. -/
theorem ofFlags_eq_iff (h : HasSpelled has spelled packetSize) :
    ofFlags spelled packetSize = ofFlags has packetSize ↔
      ∀ f ∈ (ofFlags has packetSize).flag?, spelled f = true := by
  have hdecides := decides_ofFlags has packetSize
  rw [ofFlags_eq_iff_decides]
  -- the control flags in front of the deciding one are not had, so they are not spelled either
  generalize ofFlags has packetSize = kind at hdecides ⊢
  cases kind with
  | syn => simp [Decides, flag?]
  | fin =>
    have hnsyn := h.not_spelled (by decide) hdecides.1
    simp [Decides, flag?, hnsyn]
  | rst =>
    have hnsyn := h.not_spelled (by decide) hdecides.1
    have hnfin := h.not_spelled (by decide) hdecides.2.1
    simp [Decides, flag?, hnsyn, hnfin]
  | ack =>
    have hnsyn := h.not_spelled (by decide) hdecides.1
    have hnfin := h.not_spelled (by decide) hdecides.2.1
    have hnrst := h.not_spelled (by decide) hdecides.2.2.1
    simp [Decides, flag?, hnsyn, hnfin, hnrst, hdecides.2.2.2.2]
  | data =>
    have hnsyn := h.not_spelled (by decide) hdecides.1
    have hnfin := h.not_spelled (by decide) hdecides.2.1
    have hnrst := h.not_spelled (by decide) hdecides.2.2.1
    -- if ACK were spelled in a small packet, it would decide and be had
    have hnack : ¬ (spelled .ack = true ∧ packetSize ≤ 60) := fun hack =>
      hdecides.2.2.2 ⟨h.ack (ofFlags_eq_iff_decides.mpr ⟨hnsyn, hnfin, hnrst, hack⟩), hack.2⟩
    exact ⟨fun _ f hf => absurd hf (by simp [flag?]), fun _ => ⟨hnsyn, hnfin, hnrst, hnack⟩⟩

end PacketKind

/-! ## Both -/

/-- Only data and acknowledgements change what is measured. -/
theorem Session.feedEvent_of_not_countsForFlows (s : Session) {e : Event}
    (h : e.packetKind.countsForFlows = false) : s.feedEvent e = s.countEvent e := by
  rw [feedEvent, h]
  rfl

namespace Event

variable {line : Text} {e : Event}

/-- The event has the flags that its line spells, as far as they matter. -/
theorem hasSpelled_of_ofLine? (h : Event.ofLine? line = some e) :
    PacketKind.HasSpelled e.flags.contains (fun f => Text.contains f.name line) e.packetSize ∧
      e.packetKind = PacketKind.ofFlags (fun f => Text.contains f.name line) e.packetSize := by
  obtain ⟨anchors, -, heq⟩ := Option.bind_eq_some_iff.mp h
  cases heq
  refine ⟨⟨fun f hf hspelled => ?_, fun hack => ?_⟩, PacketKind.ofLine_eq_ofFlags line _⟩
  · exact FlagSet.contains_ofLine.mpr (.inr (.inl ⟨hf, hspelled⟩))
  · exact FlagSet.contains_ofLine.mpr (.inr (.inr ⟨hack, rfl⟩))

/-- **The kind of an event and its flags.** The kind is that of the flags which the event has and its line
    spells in upper case; it is that of all its flags exactly if the one that decides is spelled. An event with
    a control flag that is spelled is not measured. -/
theorem packetKind_eq_ofFlags (h : Event.ofLine? line = some e) :
    e.packetKind =
      .ofFlags (fun f => e.flags.contains f && Text.contains f.name line) e.packetSize ∧
    (e.packetKind = .ofFlags e.flags.contains e.packetSize ↔
      ∀ f ∈ (PacketKind.ofFlags e.flags.contains e.packetSize).flag?, Text.contains f.name line = true) ∧
    ∀ f ∈ [Flag.syn, .fin, .rst], e.flags.contains f = true → Text.contains f.name line = true →
      ∀ (s : Session) (number : Nat), let s' := (s.feedLine number line).2
        s'.totalPackets = s.totalPackets ∧ s'.totalBytes = s.totalBytes ∧ s'.flows = s.flows := by
  obtain ⟨hspelled, hkind⟩ := hasSpelled_of_ofLine? h
  refine ⟨hkind.trans (PacketKind.ofFlags_spelled hspelled), ?_, fun f hf _ hname s number => ?_⟩
  · rw [hkind]
    exact PacketKind.ofFlags_eq_iff hspelled
  · have hnot : ¬ Text.isAllBlank line = true := fun hblank => by
      rw [Event.ofLine?_of_isAllBlank hblank] at h
      cases h
    have hcontrol : e.packetKind.countsForFlows = false := by
      rw [hkind]
      exact PacketKind.countsForFlows_ofFlags hf hname
    have hfeed : (s.feedLine number line).2 = s.countEvent e := by
      rw [Session.feedLine, if_neg hnot, h]
      exact s.feedEvent_of_not_countsForFlows hcontrol
    rw [hfeed]
    exact ⟨rfl, rfl, rfl⟩

/-- Three flags are listed and one of them is spelled. It decides, and the packet is not measured. -/
theorem spelled_flag_decides :
    let line := "r 1.0 /NodeList/0/x length: 40 [psh|SYN|fin] Seq=7".toList
    ∃ e, Event.ofLine? line = some e ∧ e.flags = { syn := true, fin := true, psh := true } ∧
      e.packetKind = .syn ∧ e.packetKind = .ofFlags e.flags.contains e.packetSize ∧
      ∀ number, (({} : Session).feedLine number line).2.totalPackets = 0 := by
  intro line
  have hfields : (Event.ofLine? line).map (fun e => (e.flags, e.packetKind, e.packetSize)) =
      some ({ syn := true, fin := true, psh := true }, .syn, 40) := by
    decide +kernel
  obtain ⟨e, h, heq⟩ := Option.map_eq_some_iff.mp hfields
  obtain ⟨hflags, hkind, hsize⟩ : e.flags = _ ∧ e.packetKind = _ ∧ e.packetSize = _ := by
    simpa only [Prod.mk.injEq] using heq
  have hspelled : Text.contains (Flag.name .syn) line = true := by decide +kernel
  obtain ⟨-, hagree, hmeasures⟩ := packetKind_eq_ofFlags h
  refine ⟨e, h, hflags, hkind, hagree.mpr ?_, fun number => ?_⟩
  · rw [hflags, hsize]
    intro f hf
    cases hf
    exact hspelled
  · exact (hmeasures .syn (by decide) (by rw [hflags]; rfl) hspelled {} number).1

/-- A flag that is listed in lower case is a flag of the event and has no say in its kind, so the packet is
    measured as data although SYN is among its flags. -/
theorem unspelled_flag_does_not_decide :
    let line := "r 1.0 /NodeList/0/x length: 536 [syn] Seq=1".toList
    (∃ e, Event.ofLine? line = some e ∧ e.flags.contains .syn = true ∧ e.packetKind = .data ∧
      e.packetKind ≠ .ofFlags e.flags.contains e.packetSize) ∧
    (aggregate [line]).totalPackets = 1 ∧ (aggregate [line]).totalBytes = 536 ∧
      (aggregate [line]).uniqueFlows = 1 := by
  intro line
  have hfields : (Event.ofLine? line).map (fun e => (e.flags, e.packetKind)) =
      some ({ syn := true }, .data) := by
    decide +kernel
  obtain ⟨e, h, heq⟩ := Option.map_eq_some_iff.mp hfields
  obtain ⟨hflags, hkind⟩ : e.flags = _ ∧ e.packetKind = _ := by
    simpa only [Prod.mk.injEq] using heq
  refine ⟨⟨e, h, by rw [hflags]; rfl, hkind, ?_⟩, by decide +kernel, by decide +kernel, by decide +kernel⟩
  rw [hkind, hflags]
  exact PacketKind.noConfusion

end Event

end PacketTrace

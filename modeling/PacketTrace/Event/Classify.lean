import PacketTrace.Event.Anchors
import PacketTrace.Event.Sequence

/-!
# `Event.Classify` — the event that a line reports

`Event.ofLine?` needs the anchors of the line and nothing else: a line that has them is an event,
whatever the rest of it looks like.
-/

namespace PacketTrace

/-- The largest packet that is an acknowledgement, in bytes. -/
def maxAckSize : Nat := 60

/-- The category of a packet by the words in its line. The first word of SYN, FIN, RST that occurs
    decides; an acknowledgement is a small packet whose line says ACK; all else is data. -/
def PacketKind.ofLine (line : Text) (packetSize : Nat) : PacketKind :=
  if Text.contains "SYN".toList line then .syn
  else if Text.contains "FIN".toList line then .fin
  else if Text.contains "RST".toList line then .rst
  else if Text.contains "ACK".toList line && packetSize ≤ maxAckSize then .ack
  else .data

/-- The flags of an event: those of the list before its sequence number, those whose names occur in the
    line, and ACK for an acknowledgement. -/
def FlagSet.ofLine (line : Text) (listed : List Flag) (kind : PacketKind) : FlagSet :=
  FlagSet.ofList (listed ++ Flag.keywords line ++ if kind = .ack then [.ack] else [])

/-- The event that a line reports; `none` if the line lacks one of the mandatory fields. -/
def Event.ofLine? (line : Text) : Option Event := do
  let anchors ← Anchors.ofLine? line
  let found := SeqMatch.ofLine line
  let packetKind := PacketKind.ofLine line anchors.packetSize
  return {
    kind := anchors.kind
    time := anchors.time
    nodeId := anchors.nodeId
    packetSize := anchors.packetSize
    seq := found.seq
    seqSource := found.source
    flags := FlagSet.ofLine line found.flags packetKind
    packetKind
    rawLine := Text.trim line }

end PacketTrace

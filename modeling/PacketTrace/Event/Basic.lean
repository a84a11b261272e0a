import PacketTrace.Text.Uppercase

/-!
# `Event.Basic` — what one line of a trace reports

A trace line tells that a packet was received, enqueued or dequeued at some node at some time. This
module holds the vocabulary of such events.

## Contents
- **Event kinds.** `EventKind` with the symbol that opens a line.
- **Flags.** `Flag` with its names, `Flag.parse?`, and `FlagSet` for the set of flags of an event.
- **Packet kinds.** `PacketKind` and which of them count for the flow metrics.
- **Events.** `SeqSource` says where a sequence number comes from; `Event` holds everything.
-/

namespace PacketTrace

/-! ## Event kinds -/

/-- What happened to the packet. -/
inductive EventKind where
  | receive
  | enqueue
  | dequeue
  deriving DecidableEq, Repr

namespace EventKind

/-- The character that opens a trace line of this kind. -/
def symbol : EventKind → Char
  | receive => 'r'
  | enqueue => '+'
  | dequeue => '-'

/-- The kind that a character stands for. -/
def ofSymbol? : Char → Option EventKind
  | 'r' => some receive
  | '+' => some enqueue
  | '-' => some dequeue
  | _ => none

/-- The name of a kind is its symbol. -/
def name (k : EventKind) : Text := [k.symbol]

/-- All kinds, in the order of their declaration. -/
def all : List EventKind := [receive, enqueue, dequeue]

/-- The kind with the given name. -/
def ofName? (t : Text) : Option EventKind := all.find? (·.name = t)

@[simp] theorem ofSymbol?_symbol (k : EventKind) : ofSymbol? k.symbol = some k := by
  cases k <;> rfl

@[simp] theorem ofName?_name (k : EventKind) : ofName? k.name = some k := by
  cases k <;> rfl

end EventKind

/-! ## Flags -/

/-- A flag of the TCP header. -/
inductive Flag where
  | syn
  | ack
  | fin
  | rst
  | psh
  deriving DecidableEq, Repr

namespace Flag

/-- The name of a flag, in upper case. -/
def name : Flag → Text
  | syn => "SYN".toList
  | ack => "ACK".toList
  | fin => "FIN".toList
  | rst => "RST".toList
  | psh => "PSH".toList

/-- All flags, in the order of their declaration. -/
def all : List Flag := [syn, ack, fin, rst, psh]

/-- The flag with exactly the given name. -/
def ofName? (t : Text) : Option Flag := all.find? (·.name = t)

@[simp] theorem ofName?_name (f : Flag) : ofName? f.name = some f := by
  cases f <;> rfl

/-- How a word that may name a flag is compared: without blanks around it and in upper case. -/
def normalise (t : Text) : Text := t.trim.uppercase

/-- The flag that a word names, in whatever case and with blanks around it. -/
def parse? (t : Text) : Option Flag := ofName? (normalise t)

/-- What is said about a word that names no flag. -/
def unknownMessage (t : Text) : Text := "unknown TCP flag: ".toList ++ normalise t

end Flag

/-- A set of flags. -/
structure FlagSet where
  syn : Bool := false
  ack : Bool := false
  fin : Bool := false
  rst : Bool := false
  psh : Bool := false
  deriving DecidableEq, Repr

namespace FlagSet

/-- Whether the flag belongs to the set. -/
def contains (s : FlagSet) : Flag → Bool
  | .syn => s.syn
  | .ack => s.ack
  | .fin => s.fin
  | .rst => s.rst
  | .psh => s.psh

/-- The set with one more flag. -/
def insert (s : FlagSet) : Flag → FlagSet
  | .syn => { s with syn := true }
  | .ack => { s with ack := true }
  | .fin => { s with fin := true }
  | .rst => { s with rst := true }
  | .psh => { s with psh := true }

/-- The set of the flags in a list. -/
def ofList (flags : List Flag) : FlagSet := flags.foldl insert {}

/-- The flags of the set, each once, in the order of their declaration. -/
def toList (s : FlagSet) : List Flag := Flag.all.filter s.contains

@[simp] theorem contains_empty (f : Flag) : ({} : FlagSet).contains f = false := by
  cases f <;> rfl

@[simp] theorem contains_insert (s : FlagSet) (f g : Flag) :
    (s.insert f).contains g = (decide (g = f) || s.contains g) := by
  cases f <;> cases g <;> simp [insert, contains]

end FlagSet

/-! ## Packet kinds -/

/-- The category of a packet. -/
inductive PacketKind where
  | syn
  | fin
  | rst
  | ack
  | data
  deriving DecidableEq, Repr

namespace PacketKind

/-- The name of a category. -/
def name : PacketKind → Text
  | syn => "SYN".toList
  | fin => "FIN".toList
  | rst => "RST".toList
  | ack => "ACK".toList
  | data => "Data".toList

/-- All categories, in the order of their declaration. -/
def all : List PacketKind := [syn, fin, rst, ack, data]

/-- The category with the given name. -/
def ofName? (t : Text) : Option PacketKind := all.find? (·.name = t)

@[simp] theorem ofName?_name (k : PacketKind) : ofName? k.name = some k := by
  cases k <;> rfl

/-- Data and acknowledgements count for throughput and flows; control packets do not. -/
def countsForFlows : PacketKind → Bool
  | data => true
  | ack => true
  | _ => false

end PacketKind

/-! ## Events -/

/-- Where the sequence number of an event comes from. -/
inductive SeqSource where
  /-- The field after a bracketed list of flags. -/
  | flagList
  /-- A field of its own. -/
  | seqField
  /-- The first port of the TCP header. -/
  | headerPorts
  /-- The checksum of the line. -/
  | synthetic
  deriving DecidableEq, Repr

namespace SeqSource

/-- The name of a source. -/
def name : SeqSource → Text
  | flagList => "flag_list".toList
  | seqField => "seq_field".toList
  | headerPorts => "header_ports".toList
  | synthetic => "synthetic".toList

/-- All sources, in the order in which they are tried. -/
def all : List SeqSource := [flagList, seqField, headerPorts, synthetic]

/-- The source with the given name. -/
def ofName? (t : Text) : Option SeqSource := all.find? (·.name = t)

@[simp] theorem ofName?_name (s : SeqSource) : ofName? s.name = some s := by
  cases s <;> rfl

end SeqSource

/-- What one trace line reports. -/
structure Event where
  kind : EventKind
  /-- Simulation time in seconds. -/
  time : Float
  nodeId : Nat
  /-- Length of the packet in bytes. -/
  packetSize : Nat
  seq : Nat
  seqSource : SeqSource
  flags : FlagSet
  packetKind : PacketKind
  /-- The line without the blanks around it. -/
  rawLine : Text

end PacketTrace

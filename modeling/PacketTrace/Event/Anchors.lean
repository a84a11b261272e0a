import PacketTrace.Event.Basic
import PacketTrace.Text.Numeral
import PacketTrace.Text.Search

/-!
# `Event.Anchors` — the fields that a trace line must have

A line is a trace line when it begins with an event symbol, a time, a node and, later on its first
line of text, a length. A line without one of these fields is no trace line; a number that is too large
for a word is capped and never a reason to refuse the line.

## Contents
- `Anchors`: the four fields.
- `Anchors.ofLine?`: reads them, from left to right. Every part but the last has one reading only; the
  length is that of the last length field.
-/

namespace PacketTrace

/-- The fields that every trace line has. -/
structure Anchors where
  kind : EventKind
  /-- Simulation time in seconds. -/
  time : Float
  nodeId : Nat
  /-- Length of the packet in bytes. -/
  packetSize : Nat

namespace Anchors

open Numeral

/-- The word in front of a node number. -/
def nodeMark : Text := "/NodeList/".toList

/-- The word in front of a packet length. -/
def lengthMark : Text := "length:".toList

/-- What follows a run of blank characters, if there is at least one. -/
def afterBlanks? : Text → Option Text
  | [] => none
  | c :: rest => if isBlank c then some (Text.skipBlank rest) else none

/-- The digits of the length field that a text begins with. -/
def lengthAt? (t : Text) : Option Text := do
  let rest ← lengthMark.isPrefixOf? t
  let (digits, _) ← leadingDigits? (Text.skipBlank rest)
  return digits

/-- The time with the given digits before and after the point, rounded to the nearest float; a time
    above all finite floats is infinite. -/
def seconds (whole fraction : Text) : Float :=
  Float.ofScientific (value (whole ++ fraction)) true fraction.length

/-- The mandatory fields of a line, if it has them all. -/
def ofLine? : Text → Option Anchors
  | [] => none
  | symbol :: rest => do
    let kind ← EventKind.ofSymbol? symbol
    let rest ← afterBlanks? rest
    let (whole, rest) ← leadingDigits? rest
    let rest ← ['.'].isPrefixOf? rest
    let (fraction, rest) ← leadingDigits? rest
    let rest ← afterBlanks? rest
    let rest ← nodeMark.isPrefixOf? rest
    let (node, rest) ← leadingDigits? rest
    let rest ← ['/'].isPrefixOf? rest
    let size ← Text.lastInLine lengthAt? none rest
    return { kind, time := seconds whole fraction, nodeId := cappedValue node,
             packetSize := cappedValue size }

end Anchors

end PacketTrace

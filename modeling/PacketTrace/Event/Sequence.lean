import PacketTrace.Checksum
import PacketTrace.Event.Basic
import PacketTrace.Text.Numeral
import PacketTrace.Text.Search
import PacketTrace.Text.Utf8

/-!
# `Event.Sequence` — the sequence number of a line

Three patterns may give the sequence number of a line; they are tried in order and the first that
matches wins. A pattern commits to its leftmost place: if the number there is no word, the pattern does
not match at all. A line that no pattern matches gets a number from its checksum, so every line has one.

## Contents
- **Flags in a line.** `Flag.parseList` reads a bracketed list and `Flag.keywords` looks for words.
- **Places.** `flagListAt?`, `seqFieldAt?` and `headerPortAt?` recognise a pattern at one place.
- **Patterns.** `ofFlagList?`, `ofSeqField?` and `ofHeaderPorts?` search a line, and `synthetic` falls
  back on its checksum.
- **The number.** `SeqMatch.ofLine` runs them in order.
-/

namespace PacketTrace

/-! ## Flags in a line -/

namespace Flag

/-- The flags that a list with bars between its words names, in order; other words are skipped. -/
def parseList (list : Text) : List Flag := (Text.split '|' list).filterMap parse?

/-- The control flags whose name occurs anywhere in a line. -/
def keywords (line : Text) : List Flag :=
  [syn, fin, rst].filter fun flag => Text.contains flag.name line

end Flag

/-- A sequence number with what was read along with it. -/
structure SeqMatch where
  seq : Nat
  /-- The flags in the list before the number, if the pattern reads one. -/
  flags : List Flag
  source : SeqSource
  deriving DecidableEq, Repr

namespace SeqMatch

open Numeral

/-! ## Places -/

/-- The digits of the sequence field that a text begins with. -/
def seqFieldAt? (t : Text) : Option Text := do
  let rest ← "Seq=".toList.isPrefixOf? t
  let (digits, _) ← leadingDigits? rest
  return digits

/-- The list between the brackets that a text begins with and the digits of the sequence field behind
    them. -/
def flagListAt? : Text → Option (Text × Text)
  | '[' :: rest => do
    let list := rest.takeWhile (· != ']')
    let after ← [']'].isPrefixOf? (rest.dropWhile (· != ']'))
    if list.isEmpty then none
    else return (list, ← seqFieldAt? (Text.skipBlank after))
  | _ => none

/-- The first of the two ports, with an angle bracket between them, that a text begins with. -/
def portAt? (t : Text) : Option Text := do
  let (digits, rest) ← leadingDigits? t
  let rest ← ['>'].isPrefixOf? (Text.skipBlank rest)
  let _ ← leadingDigits? (Text.skipBlank rest)
  return digits

/-- The first port after the header mark that a text begins with, on the same line of text. -/
def headerPortAt? (t : Text) : Option Text := do
  let rest ← "TcpHeader".toList.isPrefixOf? t
  Text.leftmostInLine portAt? rest

/-! ## Patterns -/

/-- The number after a bracketed list of flags. -/
def ofFlagList? (line : Text) : Option SeqMatch := do
  let (list, digits) ← Text.leftmost flagListAt? line
  return ⟨← word? digits, Flag.parseList list, .flagList⟩

/-- The number of a sequence field anywhere in the line. -/
def ofSeqField? (line : Text) : Option SeqMatch := do
  let digits ← Text.leftmost seqFieldAt? line
  return ⟨← word? digits, [], .seqField⟩

/-- The first port of the TCP header. -/
def ofHeaderPorts? (line : Text) : Option SeqMatch := do
  let digits ← Text.leftmost headerPortAt? line
  return ⟨← word? digits, [], .headerPorts⟩

/-- Numbers made from a checksum stay below this bound. -/
def syntheticBound : Nat := 1000000

/-- The number that stands in for a missing one; equal lines get equal numbers. -/
def syntheticSeq (line : Text) : Nat :=
  (Checksum.crc32 (Utf8.encode (Text.trim line))).toNat % syntheticBound

/-- The match that every line has. -/
def synthetic (line : Text) : SeqMatch := ⟨syntheticSeq line, [], .synthetic⟩

/-! ## The number -/

/-- The sequence number of a line. -/
def ofLine (line : Text) : SeqMatch :=
  match ofFlagList? line with
  | some found => found
  | none =>
    match ofSeqField? line with
    | some found => found
    | none =>
      match ofHeaderPorts? line with
      | some found => found
      | none => synthetic line

end SeqMatch

end PacketTrace

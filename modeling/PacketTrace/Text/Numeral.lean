import PacketTrace.Text.Basic

/-!
# `Text.Numeral` — runs of decimal digits

Numbers in a trace are runs of the ASCII digits. A run may be arbitrarily long; the numbers that events
and reports hold are 64-bit words, so a reader either caps a run at the largest word or refuses it.

## Contents
- **Writing.** `decimal` writes a number.
- **Reading.** `leadingDigits?` finds a run and what follows it, `value` is its number,
  `cappedValue` and `word?` bring that number into the range of a word.
-/

namespace PacketTrace

/-- The largest number that fits into 64 bits. -/
def maxWord : Nat := 0xFFFFFFFFFFFFFFFF

namespace Numeral

/-- The decimal digits of a number. -/
def decimal (n : Nat) : Text := Nat.toDigits 10 n

/-- The run of digits that a text begins with and what follows it, if there is at least one digit. -/
def leadingDigits? (t : Text) : Option (Text × Text) :=
  match t.takeWhile Char.isDigit with
  | [] => none
  | digits => some (digits, t.dropWhile Char.isDigit)

/-- The number that a run of digits denotes. -/
def value (digits : Text) : Nat := Nat.ofDigitChars 10 digits 0

/-- The number that a run denotes, or the largest word if it is larger. -/
def cappedValue (digits : Text) : Nat := min (value digits) maxWord

/-- The number that a run denotes, if it is a word. -/
def word? (digits : Text) : Option Nat :=
  if value digits ≤ maxWord then some (value digits) else none

end Numeral

end PacketTrace

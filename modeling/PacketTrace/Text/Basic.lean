/-!
# `Text.Basic` — text, lines and blank characters

Text is a list of characters and a file is a list of bytes. This module holds the operations on text
that every later module shares.

## Contents
- **Blank characters.** `isBlank` is the Unicode property White_Space; `trim` removes blank characters
  from both ends of a text, and `skipBlank` those in front.
- **Words.** `Text.contains` looks for a word anywhere in a text.
- **Order.** `Text.isUpTo` compares two texts character by character.
- **Pieces.** `Text.split` cuts a text at every separator and keeps empty pieces.
-/

namespace PacketTrace

/-- Text, character by character. -/
abbrev Text := List Char

/-- The content of a file, byte by byte. -/
abbrev Bytes := List UInt8

/-! ## Blank characters -/

/-- The characters with the Unicode property White_Space. -/
def isBlank (c : Char) : Bool :=
  let n := c.toNat
  (0x09 ≤ n && n ≤ 0x0D) || n == 0x20 || n == 0x85 || n == 0xA0 || n == 0x1680 ||
    (0x2000 ≤ n && n ≤ 0x200A) || n == 0x2028 || n == 0x2029 || n == 0x202F || n == 0x205F ||
    n == 0x3000

namespace Text

/-- What is left of a text after the blank characters in front of it. -/
def skipBlank (t : Text) : Text := t.dropWhile isBlank

/-- The text without the blank characters at its end. -/
def trimEnd (t : Text) : Text := (t.reverse.dropWhile isBlank).reverse

/-- The text without the blank characters at either end. -/
def trim (t : Text) : Text := trimEnd (skipBlank t)

/-- A text of blank characters only. -/
def isAllBlank (t : Text) : Bool := t.all isBlank

/-! ## Words -/

/-- Whether `word` occurs somewhere in the text. -/
def contains (word : Text) : Text → Bool
  | [] => word.isEmpty
  | c :: rest => if word.isPrefixOf (c :: rest) then true else contains word rest

/-! ## Order -/

/-- Whether a text comes no later than another, in the order of their characters. -/
def isUpTo : Text → Text → Bool
  | [], _ => true
  | _ :: _, [] => false
  | c :: s, d :: t => if c = d then isUpTo s t else c.toNat < d.toNat

/-! ## Pieces -/

/-- The pieces between the separators, empty ones included; a text without a separator is one piece. -/
def split (separator : Char) (t : Text) : List Text :=
  t.foldr
    (fun c pieces =>
      if c = separator then [] :: pieces
      else match pieces with
        | [] => [[c]]
        | piece :: others => (c :: piece) :: others)
    [[]]

/-- The pieces with the separator between each two of them. -/
def join (separator : Text) : List Text → Text
  | [] => []
  | [piece] => piece
  | piece :: others => piece ++ separator ++ join separator others

end Text

end PacketTrace

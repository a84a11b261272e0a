import PacketTrace.Decimal.Shortest

/-!
# `Json.Layout` — writing JSON

A document is laid out over several lines, two blanks deeper for every level; an array or object
without contents stays on one line. A document knows how to lay itself out at any depth.

## Contents
- **Scalars.** `quoted` for strings, `ofCount` and `ofFloat` for numbers.
- **Containers.** `array` and `object`.
-/

namespace PacketTrace.Json

/-- A document, laid out at a given depth. -/
abbrev Doc := Nat → Text

/-! ## Scalars -/

/-- A digit of a number in base sixteen, in lower case. -/
def hexDigit (n : Nat) : Char := Nat.digitChar n

/-- How a character is written in a string. Only the quote, the backslash and the control characters
    below U+0020 are not written as they are. -/
def escape (c : Char) : Text :=
  if c = '"' then ['\\', '"']
  else if c = '\\' then ['\\', '\\']
  else if c = '\x08' then ['\\', 'b']
  else if c = '\t' then ['\\', 't']
  else if c = '\n' then ['\\', 'n']
  else if c = '\x0c' then ['\\', 'f']
  else if c = '\r' then ['\\', 'r']
  else if c.toNat < 0x20 then
    ['\\', 'u', '0', '0', hexDigit (c.toNat / 16), hexDigit (c.toNat % 16)]
  else [c]

/-- A string between its quotes. -/
def quoted (t : Text) : Text := '"' :: t.flatMap escape ++ ['"']

/-- A shortest decimal. The digits are written in place when the first of them has a weight from
    `10 ^ -5` to `10 ^ 15`, with at least one digit on either side of the point; otherwise one digit
    stands before the point and the exponent is written with its sign. -/
def scientific (s : Scientific) : Text :=
  let count : Int := s.digits.length
  if -5 ≤ s.exponent && s.exponent < 16 then
    if s.exponent < 0 then
      "0.".toList ++ List.replicate (-s.exponent - 1).toNat '0' ++ s.digits
    else
      let whole := (s.exponent + 1).toNat
      if count ≤ s.exponent + 1 then
        s.digits ++ List.replicate (whole - s.digits.length) '0' ++ ".0".toList
      else s.digits.take whole ++ '.' :: s.digits.drop whole
  else
    let fraction := s.digits.drop 1
    s.digits.take 1 ++ (if fraction.isEmpty then [] else '.' :: fraction) ++
      'e' :: (if s.exponent < 0 then '-' else '+') :: Numeral.decimal s.exponent.natAbs

/-- The text of a float: its shortest form, or `null` if it is not finite. -/
def floatText (x : Float) : Text :=
  match Binary.ofFloat x with
  | .finite negative m q =>
    (if negative then ['-'] else []) ++
      if m = 0 then "0.0".toList else scientific (Shortest.ofValue m q)
  | _ => "null".toList

/-- A string. -/
def ofText (t : Text) : Doc := fun _ => quoted t

/-- A whole number. -/
def ofCount (n : Nat) : Doc := fun _ => Numeral.decimal n

/-- A float. -/
def ofFloat (x : Float) : Doc := fun _ => floatText x

/-! ## Containers -/

/-- The start of a line at the given depth. -/
def newLine (depth : Nat) : Text := '\n' :: List.replicate (2 * depth) ' '

/-- Items between two brackets, each on lines of its own. -/
def block (opening closing : Char) (items : List Doc) : Doc := fun depth =>
  if items.isEmpty then [opening, closing]
  else
    opening ::
      (Text.join [','] (items.map fun item => newLine (depth + 1) ++ item (depth + 1)) ++
        newLine depth ++ [closing])

/-- An array. -/
def array (items : List Doc) : Doc := block '[' ']' items

/-- A member of an object. -/
def member (name : Text) (value : Doc) : Doc := fun depth =>
  quoted name ++ ": ".toList ++ value depth

/-- An object with members in the given order. -/
def object (members : List (Text × Doc)) : Doc :=
  block '\x7b' '\x7d' (members.map fun m => member m.1 m.2)

end PacketTrace.Json

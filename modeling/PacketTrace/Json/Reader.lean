import PacketTrace.Text.Numeral
import PacketTrace.Text.Utf8

/-!
# `Json.Reader` — reading JSON from bytes

A reader takes a value of a known form from the front of some bytes, from left to right, and stops at
the first byte that does not fit. So of several faults in a text the first one is reported.

## Contents
- **Readers.** `ReadError` is the kind of a fault; `Reader` passes the unread bytes along.
- **Tokens.** `peek` and `next` look at bytes, `word` at a fixed word, `string` and `numeral` at the two
  kinds of token that have a grammar of their own.
- **Numbers.** `number` is the value of a numeral; `absorb` and `scale` say how it is rounded.
- **Scalars.** `count`, `float`, `optionalFloat` and `text` read a value of one type; `wrongType` is what
  they do with a value of another type.
- **Enumerations.** `knownName` and `enumerated` read a name out of an enumeration.
-/

namespace PacketTrace.Json

/-! ## Readers -/

/-- What may be wrong with a text. -/
inductive ReadError where
  /-- The text is no JSON. -/
  | badGrammar
  /-- The text is JSON and says something else than was expected. -/
  | badContent
  /-- The text ends too early. -/
  | endOfText
  deriving DecidableEq, Repr

/-- A reader of values of type `α`: it takes them from the front of the unread bytes. -/
abbrev Reader (α : Type) := StateT Bytes (Except ReadError) α

namespace Reader

variable {α : Type}

/-! ## Tokens -/

@[match_pattern] abbrev quote : UInt8 := 0x22
@[match_pattern] abbrev plus : UInt8 := 0x2B
@[match_pattern] abbrev comma : UInt8 := 0x2C
@[match_pattern] abbrev minus : UInt8 := 0x2D
@[match_pattern] abbrev point : UInt8 := 0x2E
@[match_pattern] abbrev slash : UInt8 := 0x2F
@[match_pattern] abbrev zero : UInt8 := 0x30
@[match_pattern] abbrev colon : UInt8 := 0x3A
@[match_pattern] abbrev upperE : UInt8 := 0x45
@[match_pattern] abbrev openBracket : UInt8 := 0x5B
@[match_pattern] abbrev backslash : UInt8 := 0x5C
@[match_pattern] abbrev closeBracket : UInt8 := 0x5D
@[match_pattern] abbrev lowerB : UInt8 := 0x62
@[match_pattern] abbrev lowerE : UInt8 := 0x65
@[match_pattern] abbrev lowerF : UInt8 := 0x66
@[match_pattern] abbrev lowerN : UInt8 := 0x6E
@[match_pattern] abbrev lowerR : UInt8 := 0x72
@[match_pattern] abbrev lowerT : UInt8 := 0x74
@[match_pattern] abbrev lowerU : UInt8 := 0x75
@[match_pattern] abbrev openBrace : UInt8 := 0x7B
@[match_pattern] abbrev closeBrace : UInt8 := 0x7D

/-- The white space of JSON: blank, tab, line feed, carriage return. -/
def isSpace (b : UInt8) : Bool := b == 0x20 || b == 0x09 || b == 0x0A || b == 0x0D

/-- The digits from 0 to 9. -/
def isDigit (b : UInt8) : Bool := 0x30 ≤ b && b ≤ 0x39

/-- The number of a digit. -/
def digitValue (b : UInt8) : Nat := b.toNat - 0x30

/-- Pass over white space and look at the next byte, which stays unread. -/
def peek : Reader (Option UInt8) := fun input =>
  let rest := input.dropWhile isSpace
  .ok (rest.head?, rest)

/-- Pass over white space and look at the next byte of a text that must not end here. -/
def peekByte : Reader UInt8 := do
  match ← peek with
  | none => throw .endOfText
  | some b => return b

/-- Take the next byte of a text that must not end here. -/
def next : Reader UInt8 := fun
  | [] => .error .endOfText
  | b :: rest => .ok (b, rest)

/-- Pass over the byte that was looked at. -/
def skip : Reader Unit := fun input => .ok ((), input.drop 1)

/-- Take a fixed word, byte by byte. -/
def word : List UInt8 → Reader Unit
  | [] => return
  | expected :: rest => do
    if (← next) = expected then word rest else throw .badGrammar

/-- The bytes of a word of ASCII characters. -/
def ascii (t : String) : List UInt8 := t.toList.map fun c => c.toNat.toUInt8

/-! ### Strings -/

/-- The number of a digit in base sixteen. -/
def hexValue? (b : UInt8) : Option Nat :=
  if isDigit b then some (digitValue b)
  else if 0x61 ≤ b && b ≤ 0x66 then some (b.toNat - 0x61 + 10)
  else if 0x41 ≤ b && b ≤ 0x46 then some (b.toNat - 0x41 + 10)
  else none

/-- The number that four digits in base sixteen denote; the latest digit comes first. -/
def fourHex? : List UInt8 → Option Nat
  | [d, c, b, a] => do
    return (((← hexValue? a) * 16 + (← hexValue? b)) * 16 + (← hexValue? c)) * 16 + (← hexValue? d)
  | _ => none

/-- The character that a letter after a backslash stands for. -/
def escaped? : UInt8 → Option UInt8
  | quote => some quote
  | backslash => some backslash
  | slash => some slash
  | lowerB => some 0x08
  | lowerF => some 0x0C
  | lowerN => some 0x0A
  | lowerR => some 0x0D
  | lowerT => some 0x09
  | _ => none

/-- Where a reader of a string stands. -/
inductive StringState where
  /-- Between two characters. -/
  | plain
  /-- After a backslash. -/
  | escape
  /-- Among four digits in base sixteen, of which some are read; `high` is a high surrogate before
      them. -/
  | hex (digits : List UInt8) (high : Option Nat)
  /-- After a high surrogate: a backslash is due. -/
  | backslashDue (high : Nat)
  /-- After a high surrogate and a backslash: the letter u is due. -/
  | letterDue (high : Nat)

/-- The state and the bytes that four digits give. -/
def fromHex (n : Nat) (high : Option Nat) : Except ReadError (StringState × Bytes) :=
  let isLow := 0xDC00 ≤ n && n ≤ 0xDFFF
  let bytes (code : Nat) := Utf8.encode [Char.ofNat code]
  match high with
  | none =>
    if isLow then .error .badGrammar
    else if 0xD800 ≤ n && n ≤ 0xDBFF then .ok (.backslashDue n, [])
    else .ok (.plain, bytes n)
  | some h =>
    if isLow then .ok (.plain, bytes (0x10000 + (h - 0xD800) * 0x400 + (n - 0xDC00)))
    else .error .badGrammar

/-- The bytes of a string up to its closing quote; `read` holds those before, latest first. -/
def stringBytes (read : Bytes) : StringState → Bytes → Except ReadError (Bytes × Bytes)
  | _, [] => .error .endOfText
  | .plain, b :: rest =>
    if b = quote then .ok (read.reverse, rest)
    else if b = backslash then stringBytes read .escape rest
    else if b < 0x20 then .error .badGrammar
    else stringBytes (b :: read) .plain rest
  | .escape, b :: rest =>
    match escaped? b with
    | some c => stringBytes (c :: read) .plain rest
    | none => if b = lowerU then stringBytes read (.hex [] none) rest else .error .badGrammar
  | .hex digits high, b :: rest =>
    if digits.length < 3 then stringBytes read (.hex (b :: digits) high) rest
    else
      match fourHex? (b :: digits) with
      | none => .error .badGrammar
      | some n =>
        match fromHex n high with
        | .error e => .error e
        | .ok (state, bytes) => stringBytes (bytes.reverse ++ read) state rest
  | .backslashDue high, b :: rest =>
    if b = backslash then stringBytes read (.letterDue high) rest else .error .badGrammar
  | .letterDue high, b :: rest =>
    if b = lowerU then stringBytes read (.hex [] (some high)) rest else .error .badGrammar

/-- A string, from its opening quote on; its bytes must be well-formed text. -/
def string : Reader Text := do
  skip
  let bytes ← stringBytes [] .plain
  match Utf8.decode? bytes with
  | some t => return t
  | none => throw .badGrammar

/-- Where a reader that passes over a string stands. -/
inductive SkipState where
  | plain
  | escape
  | hex (digits : List UInt8)

/-- What follows a string whose content does not matter. Surrogates may stand alone in it and its bytes
    need not be text. -/
def afterString : SkipState → Bytes → Except ReadError Bytes
  | _, [] => .error .endOfText
  | .plain, b :: rest =>
    if b = quote then .ok rest
    else if b = backslash then afterString .escape rest
    else if b < 0x20 then .error .badGrammar
    else afterString .plain rest
  | .escape, b :: rest =>
    if (escaped? b).isSome then afterString .plain rest
    else if b = lowerU then afterString (.hex []) rest
    else .error .badGrammar
  | .hex digits, b :: rest =>
    if digits.length < 3 then afterString (.hex (b :: digits)) rest
    else if (fourHex? (b :: digits)).isSome then afterString .plain rest
    else .error .badGrammar

/-- Pass over a string, from its opening quote on. -/
def skipString : Reader Unit := do
  skip
  fun input => (afterString .plain input).map fun rest => ((), rest)

/-! ### Numerals -/

/-- The parts of a number as it is written. -/
structure Numeral where
  negative : Bool
  whole : List UInt8
  fraction : Option (List UInt8)
  exponent : Option (Bool × List UInt8)

/-- Take a run of digits, of which there must be one. -/
def digits : Reader (List UInt8) := fun input =>
  match input with
  | [] => .error .endOfText
  | b :: _ =>
    if isDigit b then .ok (input.takeWhile isDigit, input.dropWhile isDigit) else .error .badGrammar

/-- Take a byte if it is the next one. -/
def accept (b : UInt8) : Reader Bool := fun input =>
  match input with
  | [] => .ok (false, [])
  | c :: rest => if c = b then .ok (true, rest) else .ok (false, c :: rest)

/-- A numeral. The whole part has no zero in front of other digits. -/
def numeral : Reader Numeral := do
  let negative ← accept minus
  let whole ← digits
  if whole.head? = some zero && whole.length ≠ 1 then throw .badGrammar
  let fraction ← if ← accept point then some <$> digits else pure none
  let marked ← if ← accept lowerE then pure true else accept upperE
  if marked then
    let signed ← accept minus
    if !signed then let _ ← accept plus
    return { negative, whole, fraction, exponent := some (signed, ← digits) }
  else return { negative, whole, fraction, exponent := none }

/-! ## Numbers -/

/-- The value of a number. -/
inductive Number where
  /-- A whole number from zero to the largest word. -/
  | word (n : Nat)
  /-- Any other number. -/
  | real (x : Float)

/-- Append digits to a number as long as it stays a word; the number and how many digits are left. -/
def absorb (n : Nat) : List UInt8 → Nat × Nat
  | [] => (n, 0)
  | d :: rest =>
    if n * 10 + digitValue d ≤ maxWord then absorb (n * 10 + digitValue d) rest
    else (n, rest.length + 1)

/-- The power of ten next to `10 ^ n`. -/
def powerOfTen (n : Nat) : Float := Float.ofScientific 1 false n

/-- The value of `significand * 10 ^ exponent`, rounded once for the significand and once for the
    product or the quotient; a quotient by more than `10 ^ 308` is rounded on the way. A product that
    is not finite is refused. -/
def scale (significand : Nat) (exponent : Int) : Except ReadError Float :=
  let f := Float.ofNat significand
  if 0 ≤ exponent then
    if exponent ≤ 308 then
      let product := f * powerOfTen exponent.toNat
      if product.isInf then .error .badGrammar else .ok product
    else if significand = 0 then .ok f
    else .error .badGrammar
  else if -308 ≤ exponent then .ok (f / powerOfTen (-exponent).toNat)
  else if -616 ≤ exponent then .ok (f / powerOfTen 308 / powerOfTen (-exponent - 308).toNat)
  else .ok 0.0

/-- The value of a numeral. Digits of the whole part that no longer fit into a word only raise the
    exponent; digits of the fraction that no longer fit are dropped. -/
def Numeral.value (n : Numeral) : Except ReadError Number := do
  let (whole, raised) := absorb 0 n.whole
  if !n.negative && raised = 0 && n.fraction.isNone && n.exponent.isNone then return .word whole
  let fraction := n.fraction.getD []
  let (significand, dropped) := absorb whole fraction
  let exponent : Int :=
    match n.exponent with
    | none => 0
    | some (true, ds) => -(ds.foldl (fun e d => e * 10 + digitValue d) 0 : Nat)
    | some (false, ds) => (ds.foldl (fun e d => e * 10 + digitValue d) 0 : Nat)
  let x ← scale significand (raised - (fraction.length - dropped : Nat) + exponent)
  return .real (if n.negative then -x else x)

/-- A number. -/
def number : Reader Number := do
  (← numeral).value

/-- Pass over a number. Its size does not matter, and a number that the end of the text cuts off is bad
    grammar. -/
def skipNumber : Reader Unit := fun input =>
  match numeral input with
  | .ok (_, rest) => .ok ((), rest)
  | .error _ => .error .badGrammar

/-! ## Scalars -/

/-- Whether a number may begin with this byte. -/
def startsNumber (b : UInt8) : Bool := b == minus || isDigit b

/-- Refuse a value of another type than was expected. A scalar is read first, so that a fault in its
    grammar is reported instead; of a container only the first byte counts. -/
def wrongType : Reader α := do
  let b ← peekByte
  if b = lowerN then word (ascii "null")
  else if b = lowerT then word (ascii "true")
  else if b = lowerF then word (ascii "false")
  else if b = quote then let _ ← string
  else if startsNumber b then let _ ← number
  else if b ≠ openBracket && b ≠ openBrace then throw .badGrammar
  throw .badContent

/-- A whole number that is a word. -/
def count : Reader Nat := do
  if startsNumber (← peekByte) then
    match ← number with
    | .word n => return n
    | .real _ => throw .badContent
  else wrongType

/-- A float. -/
def float : Reader Float := do
  if startsNumber (← peekByte) then
    match ← number with
    | .word n => return Float.ofNat n
    | .real x => return x
  else wrongType

/-- A float or `null`. -/
def optionalFloat : Reader (Option Float) := do
  if (← peek) = some lowerN then
    word (ascii "null")
    return none
  else some <$> float

/-- A string. -/
def text : Reader Text := do
  if (← peekByte) = quote then string else wrongType

/-- The colon between the name and the value of a member. -/
def separator : Reader Unit := do
  if (← peekByte) = colon then skip else throw .badGrammar

/-- A string that is a name out of an enumeration. Anything else is bad grammar in this place: it is looked
    for where only a string can stand, as in front of a colon, and not for a value of another type. -/
def knownName (ofName? : Text → Option α) : Reader α := do
  if (← peekByte) = quote then
    match ofName? (← string) with
    | some value => return value
    | none => throw .badContent
  else throw .badGrammar

/-- A name out of an enumeration: as a string, or as the name of the only member of an object whose
    value is `null`. Other values are bad grammar in this place. So is a member that does not begin with a
    quote, since a name that is no string makes the text no JSON: `{1:null}` is bad grammar, while
    `{"SYN":1}` is JSON that says something else than was expected. -/
def enumerated (ofName? : Text → Option α) : Reader α := do
  if (← peekByte) = openBrace then
    skip
    let value ← knownName ofName?
    separator
    if (← peekByte) = lowerN then word (ascii "null") else wrongType
    if (← peekByte) = closeBrace then skip else throw .badGrammar
    return value
  else knownName ofName?

end Reader

end PacketTrace.Json

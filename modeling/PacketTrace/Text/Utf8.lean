import PacketTrace.Text.Basic

/-!
# `Text.Utf8` — text as bytes and bytes as text

Decoding is a fold of one small step over the bytes. The decoder remembers only the sequence that is
still incomplete, and a byte that cannot continue it starts anew; so a line feed always leaves the
decoder between two characters.

## Contents
- **Encoding.** `encode` writes the one to four bytes of every character.
- **Decoding.** `pieces` cuts bytes into characters and malformed sequences, where a malformed sequence
  is as long as the longest beginning of some character. `decodeLossy` puts the replacement character
  in place of each of them and `decode?` refuses them.
-/

namespace PacketTrace.Utf8

/-! ## Encoding -/

/-- The bytes of a text. -/
def encode (t : Text) : Bytes := t.flatMap String.utf8EncodeChar

/-! ## Decoding -/

/-- A sequence that has begun and is not complete. -/
structure Pending where
  /-- How many bytes are still due. -/
  due : Nat
  /-- The least value that the next byte may have. -/
  low : UInt8
  /-- The greatest value that the next byte may have. -/
  high : UInt8
  /-- The bits that the bytes so far have given. -/
  bits : Nat
  deriving DecidableEq, Repr

/-- What a byte between two characters means. -/
inductive Lead where
  /-- It is a character of one byte. -/
  | whole (c : Char)
  /-- It opens a longer sequence. -/
  | opens (p : Pending)
  /-- No character begins with it. -/
  | stray
  deriving DecidableEq, Repr

/-- The meaning of a byte between two characters. The bounds of the second byte keep out overlong
    sequences, surrogates and values above U+10FFFF. -/
def lead (b : UInt8) : Lead :=
  if b < 0x80 then .whole (Char.ofNat b.toNat)
  else if b < 0xC2 then .stray
  else if b < 0xE0 then .opens ⟨1, 0x80, 0xBF, b.toNat % 32⟩
  else if b < 0xF0 then
    .opens ⟨2, if b = 0xE0 then 0xA0 else 0x80, if b = 0xED then 0x9F else 0xBF, b.toNat % 16⟩
  else if b < 0xF5 then
    .opens ⟨3, if b = 0xF0 then 0x90 else 0x80, if b = 0xF4 then 0x8F else 0xBF, b.toNat % 8⟩
  else .stray

/-- The decoder between two bytes. -/
structure Decoder where
  /-- What has been read, latest first; `none` stands for a malformed sequence. -/
  read : List (Option Char) := []
  /-- The sequence that is not complete yet. -/
  pending : Option Pending := none
  deriving DecidableEq, Repr

namespace Decoder

/-- Read a byte that starts anew. -/
def start (d : Decoder) (b : UInt8) : Decoder :=
  match lead b with
  | .whole c => { read := some c :: d.read }
  | .opens p => { read := d.read, pending := some p }
  | .stray => { read := none :: d.read }

/-- Read one byte. A byte that cannot continue the pending sequence makes that sequence malformed and
    starts anew. -/
def feed (d : Decoder) (b : UInt8) : Decoder :=
  match d.pending with
  | none => d.start b
  | some p =>
    if p.low ≤ b && b ≤ p.high then
      let bits := p.bits * 64 + b.toNat % 64
      if p.due = 1 then { read := some (Char.ofNat bits) :: d.read }
      else { read := d.read, pending := some ⟨p.due - 1, 0x80, 0xBF, bits⟩ }
    else start { read := none :: d.read } b

/-- All that was read, in order; a sequence that is still pending is malformed. -/
def finish (d : Decoder) : List (Option Char) :=
  match d.pending with
  | none => d.read.reverse
  | some _ => (none :: d.read).reverse

end Decoder

/-- The characters and the malformed sequences (`none`) of `bytes`, in order. -/
def pieces (bytes : Bytes) : List (Option Char) := (bytes.foldl Decoder.feed {}).finish

/-- The character that stands for a malformed sequence, U+FFFD. -/
def replacement : Char := Char.ofNat 0xFFFD

/-- The text with a replacement character for every malformed sequence. -/
def decodeLossy (bytes : Bytes) : Text := (pieces bytes).map (·.getD replacement)

/-- The text of well-formed bytes. -/
def decode? (bytes : Bytes) : Option Text := (pieces bytes).mapM id

end PacketTrace.Utf8

import PacketTrace.Decimal.Binary
import PacketTrace.Text.Numeral

/-!
# `Decimal.Shortest` — the fewest digits that read back

Many decimals round to the same float. Among them are some with the fewest digits, and of these one is
nearest to the float; that one is its shortest form. All comparisons are between whole numbers.

## Contents
- **Comparison.** A decimal `d * 10 ^ k` and a value `x * 2 ^ p` are scaled by the same factor.
- **Grids.** `leadingExponent` finds the first digit of a value; `nearestOnGrid?` looks at the two
  neighbours of the value among the multiples of a power of ten.
- **Selection.** `ofValue` tries one digit, then two, and so on.
-/

namespace PacketTrace

/-- The decimal with the given digits, the first of which has the weight `10 ^ exponent`. -/
structure Scientific where
  digits : Text
  exponent : Int
  deriving DecidableEq, Repr

namespace Shortest

/-! ## Comparison -/

/-- `d * 10 ^ k`, scaled for the comparison with multiples of `2 ^ p`. -/
def scaledDecimal (d : Nat) (k p : Int) : Nat := d * Nat.pow 10 k.toNat * Nat.pow 2 (-p).toNat

/-- `x * 2 ^ p`, scaled for the comparison with multiples of `10 ^ k`. -/
def scaledBinary (x : Nat) (k p : Int) : Nat := x * Nat.pow 2 p.toNat * Nat.pow 10 (-k).toNat

/-- Whether `d * 10 ^ k` rounds to the float with the value `m * 2 ^ q`. Half the distance to the next
    float on either side is allowed; below the least fraction the next float is twice as near. The ends
    themselves round to the float with the even `m`. -/
def readsBack (m : Nat) (q : Int) (d : Nat) (k : Int) : Bool :=
  let p := q - 2
  let low := if m = Binary.leastNormal && -1074 < q then 4 * m - 1 else 4 * m - 2
  let high := 4 * m + 2
  let decimal := scaledDecimal d k p
  if m % 2 = 0 then
    scaledBinary low k p ≤ decimal && decimal ≤ scaledBinary high k p
  else
    scaledBinary low k p < decimal && decimal < scaledBinary high k p

/-! ## Grids -/

/-- The number `e` with `10 ^ e ≤ m * 2 ^ q < 10 ^ (e + 1)`, for a value above zero. -/
def leadingExponent (m : Nat) (q : Int) : Int :=
  let num := m * Nat.pow 2 q.toNat
  let den := Nat.pow 2 (-q).toNat
  if den ≤ num then Int.ofNat ((Numeral.decimal (num / den)).length - 1)
  else
    let places := (Numeral.decimal (den / num)).length
    if den ≤ num * Nat.pow 10 (places - 1) then -Int.ofNat (places - 1) else -Int.ofNat places

/-- The multiple of `10 ^ k` next to `m * 2 ^ q` that rounds to it: of two the nearer one, and of two
    equally near ones the even one. -/
def nearestOnGrid? (m : Nat) (q : Int) (k : Int) : Option Nat :=
  let p := q - 2
  let value := scaledBinary (4 * m) k p
  let below := value / scaledDecimal 1 k p
  let above := below + 1
  match readsBack m q below k, readsBack m q above k with
  | true, false => some below
  | false, true => some above
  | false, false => none
  | true, true =>
    match compare (2 * value) (scaledDecimal below k p + scaledDecimal above k p) with
    | .lt => some below
    | .gt => some above
    | .eq => if below % 2 = 0 then some below else some above

/-! ## Selection -/

/-- A number of multiples of `10 ^ k` as a decimal without zeros at its end. -/
def normalise (d : Nat) (k : Int) : Scientific :=
  let all := Numeral.decimal d
  { digits := (all.reverse.dropWhile (· == '0')).reverse
    exponent := k + Int.ofNat all.length - 1 }

/-- The shortest form of the float with the value `m * 2 ^ q`, for `m` above zero. Seventeen digits
    always read back. -/
def ofValue (m : Nat) (q : Int) : Scientific :=
  let first := leadingExponent m q
  let found := (List.range 17).findSome? fun more =>
    (nearestOnGrid? m q (first - Int.ofNat more)).map fun d => normalise d (first - Int.ofNat more)
  found.getD ⟨['0'], 0⟩

end Shortest

end PacketTrace

/-!
# `Decimal.Binary` — the exact value of a float

A float that is neither infinite nor no number is a whole number times a power of two. The decimal
forms of a float are computed from these two numbers, without rounding on the way.
-/

namespace PacketTrace

/-- What a float stands for. -/
inductive Binary where
  | notANumber
  | infinite (negative : Bool)
  /-- The value `m * 2 ^ q`, below zero if `negative`; zero has a sign too. -/
  | finite (negative : Bool) (m : Nat) (q : Int)
  deriving DecidableEq, Repr

/-- The least whole number that stands for a float above the least exponent: 2 ^ 52. -/
def Binary.leastNormal : Nat := Nat.pow 2 52

/-- What a float stands for, read off its sign bit, the 11 bits of its exponent and the 52 bits of its
    fraction. -/
def Binary.ofFloat (x : Float) : Binary :=
  let bits := x.toBits.toNat
  let negative := bits / Nat.pow 2 63 == 1
  let exponent := bits / leastNormal % Nat.pow 2 11
  let fraction := bits % leastNormal
  if exponent = 2047 then
    if fraction = 0 then .infinite negative else .notANumber
  else if exponent = 0 then .finite negative fraction (-1074)
  else .finite negative (leastNormal + fraction) (Int.ofNat exponent - 1075)

end PacketTrace

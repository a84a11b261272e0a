import PacketTrace.Decimal.Binary
import PacketTrace.Text.Numeral

/-!
# `Decimal.Fixed` — a fixed number of decimal places

The text of a float with a given number of places is that of the nearest decimal with so many places;
an exact tie goes to the even one.
-/

namespace PacketTrace.Fixed

open Numeral

/-- The whole number nearest to a quotient; a tie goes to the even one. -/
def roundDiv (num den : Nat) : Nat :=
  match compare (2 * (num % den)) den with
  | .lt => num / den
  | .gt => num / den + 1
  | .eq => num / den + num / den % 2

/-- The multiple of `10 ^ -places` nearest to `m * 2 ^ q`. -/
def scaled (places m : Nat) (q : Int) : Nat :=
  roundDiv (m * Nat.pow 10 places * Nat.pow 2 q.toNat) (Nat.pow 2 (-q).toNat)

/-- A number of multiples of `10 ^ -places`, with at least one digit in front of the point. -/
def layout (places n : Nat) : Text :=
  let fraction := decimal (n % Nat.pow 10 places)
  decimal (n / Nat.pow 10 places) ++ '.' :: (List.replicate (places - fraction.length) '0' ++ fraction)

/-- A float with one or more decimal places. -/
def render (places : Nat) (x : Float) : Text :=
  match Binary.ofFloat x with
  | .notANumber => "NaN".toList
  | .infinite false => "inf".toList
  | .infinite true => "-inf".toList
  | .finite false m q => layout places (scaled places m q)
  | .finite true m q => '-' :: layout places (scaled places m q)

end PacketTrace.Fixed

import Reckoner.Double.Nearest
import Reckoner.Decimal.Layout

/-!
# A fixed number of places

The exact value of a double rounded to a number of decimal places; an exact half goes to the even
neighbour.
-/

namespace Reckoner.Decimal

open Double

/-- The magnitude of `x` in units of `10^-places`, rounded. -/
def scaled (places : Nat) (x : Binary) : Nat :=
  if 0 ≤ x.exponent then x.significand * Nat.pow 2 x.exponent.toNat * Nat.pow 10 places
  else roundDiv (x.significand * Nat.pow 10 places) (Nat.pow 2 (-x.exponent).toNat)

/-- At least `width` digits, filled up with zeros on the left. -/
def padded (width : Nat) (digits : List Char) : List Char :=
  List.replicate (width - digits.length) '0' ++ digits

/-- The text of `n` units of `10^-places`. -/
def fixedText (places n : Nat) : List Char :=
  let digits := padded (places + 1) (Nat.toDigits 10 n)
  let whole := digits.length - places
  if places = 0 then digits else digits.take whole ++ '.' :: digits.drop whole

/-- The text of a double with exactly `places` places after the point. -/
def fixed (places : Nat) (x : Float) : List Char :=
  match read x with
  | .notANumber => "NaN".toList
  | .infinite negative => signed negative "inf".toList
  | .finite v => signed v.negative (fixedText places (scaled places v))

end Reckoner.Decimal

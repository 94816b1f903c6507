import Reckoner.Decimal.Digits
import Reckoner.Double.Nearest

/-!
# Reading decimals

The double nearest to a number written in decimal or in another base.
-/

namespace Reckoner.Decimal

open Double

/-- The double nearest to `coefficient * 10^exponent`. Two far exponents are answered without the
power of ten: `10^309` is past the doubles, and since `8 ≤ 10`, a coefficient below `2^(3 k - 1075)`
times `10^-k` is less than half the least double. -/
def toDouble (negative : Bool) (coefficient : Nat) (exponent : Int) : Float :=
  if coefficient = 0 then nearest negative 0 1
  else if 0 ≤ exponent then
    if 309 ≤ exponent then infinity negative
    else nearest negative (coefficient * Nat.pow 10 exponent.toNat) 1
  else if coefficient.log2 + 1076 ≤ 3 * (-exponent).toNat then nearest negative 0 1
  else nearest negative coefficient (Nat.pow 10 (-exponent).toNat)

/-- The double nearest to a decimal given by its digits before and after the point and its
exponent. -/
def ofParts (negative : Bool) (whole fraction : List Char) (exponent : Int) : Float :=
  toDouble negative (ofDigits 10 (whole ++ fraction)) (exponent - fraction.length)

end Reckoner.Decimal

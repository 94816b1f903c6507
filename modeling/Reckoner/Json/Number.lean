import Reckoner.Json.Basic
import Reckoner.Decimal.Read

/-!
# The number of a numeral

An integer that fits 64 bits is kept exactly. Every other numeral is read quickly rather than
exactly: as many leading digits as fit 64 bits, scaled by a power of ten in one rounded operation.
The double is therefore not always the nearest one.
-/

namespace Reckoner

/-- The number that a numeral gives. -/
inductive Number where
  | natural (n : Nat)
  /-- The negative integer `-n`. -/
  | negative (n : Nat)
  | real (x : Float)
deriving DecidableEq, Repr

namespace Numeral

/-- The greatest integer that digits are collected in. -/
def greatest : Nat := UInt64.size - 1

/-- Collects leading digits as long as the integer fits; gives the integer and the digits left. -/
def collect : Nat → List Char → Nat × List Char
  | n, [] => (n, [])
  | n, c :: cs =>
    let next := n * 10 + Decimal.digitValue c
    if next ≤ greatest then collect next cs else (n, c :: cs)

/-- The double next to `10^n`. -/
def tenTo (n : Nat) : Float := Decimal.toDouble false 1 n

/-- `x * 10^e` with one rounding for each factor of at most `10^308`. An infinite result is
refused. -/
def scale (x : Float) (e : Int) : Option Float :=
  if e.natAbs ≤ 308 then
    if 0 ≤ e then
      let y := x * tenTo e.natAbs
      if y.isInf then none else some y
    else some (x / tenTo e.natAbs)
  else if x == 0 then some x
  else if 0 ≤ e then none
  else scale (x / tenTo 308) (e + 308)
termination_by e.natAbs
decreasing_by omega

/-- The double with an integer's digits and an exponent. -/
def real (negative : Bool) (n : Nat) (e : Int) : Option Number :=
  (scale (Double.ofNat n) e).map fun x => .real (if negative then -x else x)

/-- The number of a numeral, unless it is beyond the doubles. -/
def number? (n : Numeral) : Option Number :=
  let (whole, dropped) := collect 0 n.parts.whole
  let (all, beyond) := collect whole n.parts.fraction
  let exponent : Int :=
    (dropped.length : Int) - (n.parts.fraction.length - beyond.length) + n.parts.exponent.getD 0
  if n.parts.fraction = [] ∧ n.parts.exponent = none ∧ dropped = [] then
    if !n.negative then some (.natural whole)
    else if whole = 0 ∨ UInt64.size / 2 < whole then some (.real (-Double.ofNat whole))
    else some (.negative whole)
  else real n.negative all exponent

end Numeral

namespace Number

def double : Number → Float
  | .natural n => Double.ofNat n
  | .negative n => -Double.ofNat n
  | .real x => x

def numeral : Number → Numeral
  | .natural n => .ofNat n
  | .negative n => { Numeral.ofNat n with negative := true }
  | .real x => .ofDouble x

end Number

end Reckoner

import Reckoner.Double.Basic

/-!
# The fewest digits that read back

A double is the nearest one to every real number of an interval around it. `shortest` gives the
decimal in that interval with the fewest digits; among several of that length the nearest to the
double, and of two equally near ones the one that a `Tie` prefers.
-/

namespace Reckoner

/-- The decimal number `coefficient * 10^exponent`. -/
structure Decimal where
  coefficient : Nat
  exponent : Int
deriving DecidableEq, Repr

namespace Decimal

open Double

/-- Which of two equally near decimals is taken. -/
inductive Tie where
  | upper
  /-- The one with an even last digit. -/
  | even
deriving DecidableEq, Repr

def Tie.choose : Tie → Nat → Nat
  | upper, n => n + 1
  | even, n => if n % 2 = 0 then n else n + 1

theorem Tie.choose_eq_or (tie : Tie) (n : Nat) : tie.choose n = n ∨ tie.choose n = n + 1 := by
  cases tie
  · exact .inr rfl
  · simp only [choose]; split
    · exact .inl rfl
    · exact .inr rfl

/-- The same number without trailing zeros in its coefficient; the fuel bounds their count. -/
def strip : Nat → Decimal → Decimal
  | 0, x => x
  | fuel + 1, x =>
    if x.coefficient ≠ 0 ∧ x.coefficient % 10 = 0 then
      strip fuel ⟨x.coefficient / 10, x.exponent + 1⟩
    else x

/-- A value between its two neighbours at half distance, all in units of `2^(exponent - 2)`. -/
structure Interval where
  low : Nat
  value : Nat
  high : Nat
  /-- Whether both ends still read as the value: the significand is even. -/
  closed : Bool

/-- The numbers that round to a positive double. -/
def interval (x : Binary) : Interval where
  -- below a power of two the lower neighbour is only half as far away as the upper one
  low := if x.significand = fractionSize ∧ leastExponent < x.exponent then 4 * x.significand - 1
    else 4 * x.significand - 2
  value := 4 * x.significand
  high := 4 * x.significand + 2
  closed := x.significand % 2 == 0

/-- The `k` with `10^k ≤ n / d < 10^(k+1)`, for positive `n` and `d`. -/
def decade (n d : Nat) : Int :=
  let reaches (k : Int) : Bool :=
    if 0 ≤ k then d * Nat.pow 10 k.toNat ≤ n else d ≤ n * Nat.pow 10 (-k).toNat
  -- the logarithm of two, from which the binary order gives an estimate that is off by one at most
  let estimate : Int := ((n.log2 : Int) - d.log2) * 30103 / 100000
  if reaches (estimate + 1) then estimate + 1
  else if reaches estimate then estimate
  else estimate - 1

/-- The decimals of the grid `10^k` next to the value that lie in the interval: the nearest one, if
there is any. The interval is in units of `2^q`. -/
def onGrid (tie : Tie) (i : Interval) (q k : Int) : Option Nat :=
  let a := Nat.pow 10 k.toNat * Nat.pow 2 (-q).toNat
  let b := Nat.pow 2 q.toNat * Nat.pow 10 (-k).toNat
  let inside (c : Nat) : Bool :=
    if i.closed then i.low * b ≤ c * a && c * a ≤ i.high * b
    else i.low * b < c * a && c * a < i.high * b
  let lower := i.value * b / a
  let upper := lower + 1
  match inside lower, inside upper with
  | false, false => none
  | true, false => some lower
  | false, true => some upper
  | true, true =>
    match compare (i.value * b - lower * a) (upper * a - i.value * b) with
    | .lt => some lower
    | .eq => some (tie.choose lower)
    | .gt => some upper

/-- Tries grids from coarse to fine, starting at `10^k`. -/
def searchGrids (tie : Tie) (i : Interval) (q : Int) : Nat → Int → Decimal
  | 0, k => ⟨0, k⟩
  | fuel + 1, k =>
    match onGrid tie i q k with
    | some c => ⟨c, k⟩
    | none => searchGrids tie i q fuel (k - 1)

/-- The shortest decimal that reads back as the magnitude of `x`. -/
def shortest (tie : Tie) (x : Binary) : Decimal :=
  if x.significand = 0 then ⟨0, 0⟩
  else
    let q := x.exponent - 2
    let i := interval x
    let top := decade (i.value * Nat.pow 2 q.toNat) (Nat.pow 2 (-q).toNat)
    -- seventeen digits always read back
    strip 17 (searchGrids tie i q 18 top)

end Decimal

end Reckoner

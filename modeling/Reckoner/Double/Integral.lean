import Reckoner.Double.Nearest

/-!
# Integral parts and remainders

Rounding to an integer in four directions and the remainder of a division, computed exactly on the
binary values. The sign of a zero result is the sign of the argument.
-/

namespace Reckoner.Double

/-- How a magnitude `n / 2^k` is brought to an integer, given the sign of the value. -/
abbrev Rounding := (negative : Bool) → (n k : Nat) → Nat

/-- Toward minus infinity. -/
def downward : Rounding := fun negative n k =>
  if negative && n % Nat.pow 2 k != 0 then n / Nat.pow 2 k + 1 else n / Nat.pow 2 k

/-- Toward plus infinity. -/
def upward : Rounding := fun negative n k =>
  if !negative && n % Nat.pow 2 k != 0 then n / Nat.pow 2 k + 1 else n / Nat.pow 2 k

/-- To the nearest integer, a half away from zero. -/
def halfAway : Rounding := fun _ n k => (2 * n + Nat.pow 2 k) / Nat.pow 2 (k + 1)

/-- The integer that a rounding gives; infinities and NaN are kept. -/
def toIntegral (r : Rounding) (x : Float) : Float :=
  match read x with
  | .finite v =>
    if 0 ≤ v.exponent then x
    else nearest v.negative (r v.negative v.significand (-v.exponent).toNat) 1
  | _ => x

def floor (x : Float) : Float := toIntegral downward x

def ceil (x : Float) : Float := toIntegral upward x

/-- The integer nearest to `x`, a half going away from zero. -/
def round (x : Float) : Float := toIntegral halfAway x

/-- The remainder of `x` divided by `y`, with the quotient cut toward zero: it has the sign of `x`
and is exact. -/
def remainder (x y : Float) : Float :=
  match read x, read y with
  | .finite a, .finite b =>
    if b.significand = 0 then notANumber
    else
      let e := min a.exponent b.exponent
      let m := a.significand * Nat.pow 2 (a.exponent - e).toNat
      let n := b.significand * Nat.pow 2 (b.exponent - e).toNat
      ofBinary ⟨a.negative, m % n, e⟩
  | .finite _, .infinite _ => x
  | _, _ => notANumber

end Reckoner.Double

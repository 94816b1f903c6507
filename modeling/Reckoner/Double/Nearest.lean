import Reckoner.Double.Basic

/-!
# Rounding to the nearest double

`nearest` gives the double closest to a quotient of natural numbers, an exact half going to the even
neighbour. All arithmetic is on natural numbers.
-/

namespace Reckoner.Double

/-- The integer nearest to `n / d`; an exact half goes to the even neighbour. -/
def roundDiv (n d : Nat) : Nat :=
  let q := n / d
  let r := n % d
  if 2 * r < d then q
  else if d < 2 * r then q + 1
  else if q % 2 = 0 then q else q + 1

/-- The `k` with `2^k ≤ n / d < 2^(k+1)`, for positive `n` and `d`. -/
def order (n d : Nat) : Int :=
  let k : Int := (n.log2 : Int) - d.log2
  let below := if 0 ≤ k then n < d * Nat.pow 2 k.toNat else n * Nat.pow 2 (-k).toNat < d
  if below then k - 1 else k

def infinityBits : Nat := 2047 * fractionSize

/-- The bits of the double nearest to `n / d`, for positive `d`. The significand is rounded to 53
bits, or to the grid of the subnormal doubles. -/
def nearestBits (n d : Nat) : Nat :=
  if n = 0 then 0
  else
    let e := max leastExponent (order n d - 52)
    let m :=
      if 0 ≤ e then roundDiv n (d * Nat.pow 2 e.toNat)
      else roundDiv (n * Nat.pow 2 (-e).toNat) d
    -- a carry out of the significand moves on to the exponent, as bits count up in the order of values
    min ((e - leastExponent).toNat * fractionSize + m) infinityBits

/-- The double nearest to `n / d`, with a sign. -/
def nearest (negative : Bool) (n d : Nat) : Float :=
  Float.ofBits (UInt64.ofNat ((if negative then signBit else 0) + nearestBits n d))

def ofNat (n : Nat) : Float := nearest false n 1

def ofBinary (x : Binary) : Float :=
  if 0 ≤ x.exponent then nearest x.negative (x.significand * Nat.pow 2 x.exponent.toNat) 1
  else nearest x.negative x.significand (Nat.pow 2 (-x.exponent).toNat)

theorem roundDiv_le (n d : Nat) : roundDiv n d ≤ n / d + 1 := by
  simp only [roundDiv]; repeat' split
  all_goals omega

theorem le_roundDiv (n d : Nat) : n / d ≤ roundDiv n d := by
  simp only [roundDiv]; repeat' split
  all_goals omega

@[simp] theorem nearestBits_zero (d : Nat) : nearestBits 0 d = 0 := rfl

theorem nearestBits_le (n d : Nat) : nearestBits n d ≤ infinityBits := by
  unfold nearestBits; split
  · exact Nat.zero_le _
  · exact Nat.min_le_right _ _

end Reckoner.Double

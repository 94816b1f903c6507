/-!
# What a double stands for

A finite double is an integer times a power of two. Reading that integer and that power out of the
bits gives every later computation on doubles an exact value to start from.
-/

namespace Reckoner.Double

/-- The finite value `(-1)^negative * significand * 2^exponent`. -/
structure Binary where
  negative : Bool
  significand : Nat
  exponent : Int
deriving DecidableEq, Repr

/-- What the bits of a double say. -/
inductive Reading where
  | notANumber
  | infinite (negative : Bool)
  | finite (value : Binary)
deriving DecidableEq, Repr

/-- The exponent of the subnormal doubles. -/
def leastExponent : Int := -1074

/-- The fraction of a double is below this number, `2^52`. -/
def fractionSize : Nat := 0x10000000000000

/-- What the sign bit counts, `2^63`. -/
def signBit : Nat := 0x8000000000000000

/-- The reading of 64 bits: a sign, eleven bits of exponent and 52 bits of fraction. -/
def readBits (bits : Nat) : Reading :=
  let negative := bits / signBit % 2 == 1
  let biased : Nat := bits / fractionSize % 2048
  let fraction := bits % fractionSize
  if biased = 2047 then
    if fraction = 0 then .infinite negative else .notANumber
  else if biased = 0 then .finite ⟨negative, fraction, leastExponent⟩
  else .finite ⟨negative, fraction + fractionSize, biased - (1075 : Int)⟩

def read (x : Float) : Reading := readBits x.toBits.toNat

def infinity (negative : Bool) : Float :=
  Float.ofBits (if negative then 0xFFF0000000000000 else 0x7FF0000000000000)

def notANumber : Float := Float.ofBits 0x7FF8000000000000

end Reckoner.Double

import Reckoner.Decimal.Shortest

/-!
# How a decimal is laid out

A layout says which decimal exponents are written positionally, how an exponent looks, and which of
two equally short decimals stands for a double. Each text that shows a double picks one of the
layouts below.
-/

namespace Reckoner.Decimal

open Double

structure Layout where
  /-- Whether a number whose first digit stands for `10^e` is written without an exponent. -/
  positional : Int → Bool
  /-- Whether a whole number in positional form ends in `.0`. -/
  pointZero : Bool
  /-- Whether an exponent that is not negative has a plus sign. -/
  plusSign : Bool
  /-- The choice between two shortest decimals that are equally near to a double. -/
  tie : Tie

/-- Always positional: `150`, `0.0000001`. -/
def Layout.plain : Layout := ⟨fun _ => true, false, false, .upper⟩

/-- Always with an exponent: `1.5e2`, `1e-7`. -/
def Layout.scientific : Layout := ⟨fun _ => false, false, false, .upper⟩

/-- Positional from `0.00001` up to sixteen digits, always visibly a fraction: `150.0`, `1e-6`,
`1e+16`. -/
def Layout.data : Layout := ⟨fun e => -5 ≤ e && e ≤ 15, true, true, .even⟩

/-- The parts of a written decimal without sign. -/
structure Written where
  whole : List Char
  /-- The digits behind the point; there is no point without them. -/
  fraction : List Char
  exponent : Option Int
deriving DecidableEq, Repr

/-- Digits with the point after the first `point` of them. -/
def Written.positional (pointZero : Bool) (digits : List Char) (point : Int) : Written :=
  let count := digits.length
  if point ≤ 0 then ⟨['0'], List.replicate (-point).toNat '0' ++ digits, none⟩
  else if (count : Int) ≤ point then
    ⟨digits ++ List.replicate (point.toNat - count) '0', if pointZero then ['0'] else [], none⟩
  else ⟨digits.take point.toNat, digits.drop point.toNat, none⟩

def Layout.arrange (layout : Layout) (x : Decimal) : Written :=
  let digits := Nat.toDigits 10 x.coefficient
  let point : Int := digits.length + x.exponent
  if layout.positional (point - 1) then Written.positional layout.pointZero digits point
  else ⟨digits.take 1, digits.drop 1, some (point - 1)⟩

/-- The digits of an integer with its sign. -/
def integerText (plusSign : Bool) (e : Int) : List Char :=
  let digits := Nat.toDigits 10 e.natAbs
  if e < 0 then '-' :: digits else if plusSign then '+' :: digits else digits

def Written.text (plusSign : Bool) (w : Written) : List Char :=
  w.whole ++ (if w.fraction = [] then [] else '.' :: w.fraction) ++
    (match w.exponent with
    | none => []
    | some e => 'e' :: integerText plusSign e)

/-- The parts of the magnitude of a double: its shortest digits, arranged. -/
def Layout.parts (layout : Layout) (x : Binary) : Written :=
  layout.arrange (shortest layout.tie x)

def signed (negative : Bool) (cs : List Char) : List Char := if negative then '-' :: cs else cs

/-- The text of a double: its shortest digits in the layout. -/
def Layout.text (layout : Layout) (x : Float) : List Char :=
  match read x with
  | .notANumber => "NaN".toList
  | .infinite negative => signed negative "inf".toList
  | .finite v => signed v.negative ((layout.parts v).text layout.plusSign)

/-- The text of a double in messages: all digits and never an exponent. -/
def plain (x : Float) : String := String.ofList (Layout.plain.text x)

def scientific (x : Float) : String := String.ofList (Layout.scientific.text x)

end Reckoner.Decimal

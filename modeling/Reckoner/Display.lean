import Reckoner.Value
import Reckoner.Locale
import Reckoner.Currency.Code
import Reckoner.Decimal.Fixed

/-!
# Displaying values

Rounding depends on the display's settings alone. The locale chooses separators and the side of a
currency symbol, so that every locale shows the same digits.
-/

namespace Reckoner

structure Display where
  /-- Places kept of plain numbers and quantities; zeros at the end of them are dropped. -/
  places : Nat
  /-- Places of currency amounts. -/
  currencyPlaces : Nat
  /-- From this magnitude on an amount is written with an exponent. -/
  upper : Float
  /-- Below this magnitude an amount other than zero is written with an exponent. -/
  lower : Float

namespace Display

/-- Ten places, two for currencies, and an exponent from `10^15` and below `10^-6`. -/
def standard : Display := ⟨10, 2, 1e15, 1e-6⟩

instance : Inhabited Display := ⟨standard⟩

/-- Zero without its sign; any other amount as it is. -/
def unsignedZero (x : Float) : Float := if x == 0 then 0 else x

/-- A text without the minus sign in front, and whether it has one. -/
def splitSign : List Char → Bool × List Char
  | '-' :: rest => (true, rest)
  | cs => (false, cs)

/-- Digits with a separator before each group of three, counted from the end. -/
def groupDigits (separator : Char) : List Char → List Char
  | [] => []
  | c :: rest =>
    if rest ≠ [] ∧ rest.length % 3 = 0 then c :: separator :: groupDigits separator rest
    else c :: groupDigits separator rest

/-- A text without the zeros that end its fraction, and without a point that nothing follows. -/
def trimFraction (cs : List Char) : List Char :=
  if cs.contains '.' then
    let kept := ((cs.reverse.dropWhile (· == '0')).dropWhile (· == '.')).reverse
    -- what is left of a negative number that was rounded to zero
    if kept = ['-', '0'] then ['0'] else kept
  else cs

/-- A plain decimal text with the separators of a locale. -/
def localize (l : Locale) (cs : List Char) : List Char :=
  let (negative, cs) := splitSign cs
  let whole := groupDigits l.groupSeparator (cs.takeWhile (· != '.'))
  let fraction :=
    match cs.dropWhile (· != '.') with
    | [] => []
    | _ :: rest => l.decimalSeparator :: rest
  Decimal.signed negative (whole ++ fraction)

variable (d : Display) (l : Locale)

def isScientific (x : Float) : Bool :=
  d.upper ≤ x.abs || (x.abs != 0 && x.abs < d.lower)

def number (x : Float) : List Char :=
  let x := unsignedZero x
  if d.isScientific x then
    (Decimal.Layout.scientific.text x).map fun c => if c = '.' then l.decimalSeparator else c
  else localize l (trimFraction (Decimal.fixed d.places x))

/-- The text of a currency amount. A symbol stands before or after the amount, a code always behind
it; the sign comes first, and an amount rounded to zero has none. -/
def money (x : Float) (code : String) : List Char :=
  let (negative, magnitude) := splitSign (Decimal.fixed d.currencyPlaces (unsignedZero x))
  let isZero := magnitude.all fun c => c == '0' || c == '.'
  let amount := localize l magnitude
  let shown :=
    match Currency.symbol? code with
    | some symbol => if l.currencyAfter then amount ++ [' ', symbol] else symbol :: amount
    | none => amount ++ ' ' :: code.toList
  Decimal.signed (negative && !isZero) shown

/-- The text of a value: `1,234.5`, `5 km`, `$1,234.50`, `1.234,50 €`, `12.50 CHF`. -/
def text (v : Value) : String :=
  String.ofList <|
    match v.kind with
    | .number => d.number l v.amount
    | .unit symbol => d.number l v.amount ++ ' ' :: symbol.toList
    | .currency code => d.money l v.amount code

end Display

end Reckoner

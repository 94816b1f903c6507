import Reckoner.Failure
import Reckoner.Currency.Code

/-!
# Arithmetic on values

A plain number next to a quantity takes on the quantity's unit. Two quantities must be of one
category; the right one is converted to the unit of the left one first.
-/

namespace Reckoner

namespace Value

/-- The product of two values, one of them a plain number. -/
def multiply (a b : Value) : Outcome Value :=
  match a.kind, b.kind with
  | .number, _ => .ok (b.withAmount (a.amount * b.amount))
  | _, .number => .ok (a.withAmount (a.amount * b.amount))
  | _, _ => .error (.clash (.multiply a.label b.label))

def power (base exponent : Value) : Outcome Value :=
  if base.isNumber && exponent.isNumber then
    .ok (.number (base.amount.pow exponent.amount))
  else .error (.clash .power)

def negate (v : Value) : Value := v.withAmount (-v.amount)

end Value

/-- What words and conversions are resolved by. -/
structure Units where
  table : MeasureTable
  rates : Option RateSet
  locale : Locale

/-- The amount in another unit of the same category. -/
def convertMeasure (amount : Float) (source target : Measure) : Outcome Float :=
  if source.category ≠ target.category then
    .error (.clash (.categories source.symbol source.category.text target.symbol
      target.category.text))
  else if source.symbol = target.symbol then .ok amount
  else .ok (target.fromBase (source.toBase amount))

namespace Units
variable (u : Units)

/-- The kind that a word names. A unit comes before a currency. -/
def resolve? (word : String) : Option Kind :=
  match u.table.lookup? u.locale word with
  | some m => some (.unit m.symbol)
  | none => (Currency.resolve? word u.rates).map .currency

def measure (symbol : String) : Outcome Measure :=
  match u.table.get? symbol with
  | some m => .ok m
  | none => .error (.unknownUnit symbol)

def measureOf (word : String) : Outcome Measure :=
  match u.table.lookup? u.locale word with
  | some m => .ok m
  | none => .error (.unknownUnit word)

def convertAmount (amount : Float) (source target : String) : Outcome Float := do
  convertMeasure amount (← u.measureOf source) (← u.measureOf target)

/-- The amount of a value in another kind. -/
def amountIn (v : Value) (target : Kind) : Outcome Float :=
  match v.kind, target with
  | .number, _ => .ok v.amount
  | .unit a, .unit b => do
    let source ← u.measure a
    let target ← u.measure b
    convertMeasure v.amount source target
  | .currency a, .currency b =>
    if a = b then .ok v.amount
    else
      match u.rates with
      | none => .error (.missingRate a)
      | some rates => (rates.convert v.amount a b).mapError .missingRate
  | _, .number => .error (.clash (.convert v.label "a number"))
  | _, target => .error (.clash (.convert v.label target.label))

/-- A sum or a difference, named by `verb` in faults. -/
def combine (verb : String) (op : Float → Float → Float) (a b : Value) : Outcome Value :=
  match a.kind, b.kind with
  | .number, _ => .ok (b.withAmount (op a.amount b.amount))
  | _, .number => .ok (a.withAmount (op a.amount b.amount))
  | _, _ =>
    match u.amountIn b a.kind with
    | .ok amount => .ok (a.withAmount (op a.amount amount))
    | .error (.clash _) => .error (.clash (.combine verb a.label b.label))
    | .error e => .error e

def add (a b : Value) : Outcome Value := u.combine "add" (· + ·) a b

def subtract (a b : Value) : Outcome Value := u.combine "subtract" (· - ·) a b

/-- The quotient of two values; of two quantities it is a plain number. -/
def divide (a b : Value) : Outcome Value :=
  match a.kind, b.kind with
  | _, .number =>
    if b.amount == 0 then .error .divisionByZero else .ok (a.withAmount (a.amount / b.amount))
  | .number, _ => .error (.clash (.divideNumber b.label))
  | _, _ =>
    match u.amountIn b a.kind with
    | .error e => .error e
    | .ok divisor =>
      -- judged after the conversion: `0 C` is no zero divisor of kelvins
      if divisor == 0 then .error .divisionByZero else .ok (.number (a.amount / divisor))

/-- The remainder of two values, with the sign of the left one. -/
def remainder (a b : Value) : Outcome Value :=
  match a.kind, b.kind with
  | _, .number =>
    if b.amount == 0 then .error .divisionByZero
    else .ok (a.withAmount (Double.remainder a.amount b.amount))
  | .number, _ => .error (.clash (.remainderOfNumber b.label))
  | _, _ =>
    match u.amountIn b a.kind with
    | .error e => .error e
    | .ok divisor =>
      if divisor == 0 then .error .divisionByZero
      else .ok (a.withAmount (Double.remainder a.amount divisor))

/-- The value in the unit or currency that a word names. A plain number takes it on as it is. -/
def convertTo (v : Value) (word : String) : Outcome Value :=
  match u.resolve? word with
  | none => .error (.unknownUnit word)
  | some kind =>
    if v.isNumber then .ok ⟨v.amount, kind⟩ else (u.amountIn v kind).map fun x => ⟨x, kind⟩

/-- An angle in radians, as a plain number; any other value as it is. -/
def toRadians (v : Value) : Outcome Value :=
  match v.kind with
  | .unit symbol =>
    match u.measure symbol with
    | .error e => .error e
    | .ok m =>
      if m.category = .angle then (u.convertTo v "rad").map fun r => .number r.amount else .ok v
  | _ => .ok v

end Units

end Reckoner

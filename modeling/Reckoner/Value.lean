import Reckoner.Decimal.Layout

/-!
# Values

An amount and what it measures.
-/

namespace Reckoner

/-- What an amount measures. -/
inductive Kind where
  | number
  /-- A unit, by its symbol. -/
  | unit (symbol : String)
  /-- A currency, by its upper-case code. -/
  | currency (code : String)
deriving DecidableEq, Repr

/-- The unit symbol or currency code; nothing for a plain number. -/
def Kind.label : Kind → String
  | .number => ""
  | .unit symbol => symbol
  | .currency code => code

/-- The result of an evaluation. -/
structure Value where
  amount : Float
  kind : Kind
deriving DecidableEq, Repr

namespace Value

def number (amount : Float) : Value := ⟨amount, .number⟩

/-- The same kind with another amount. -/
def withAmount (v : Value) (amount : Float) : Value := { v with amount := amount }

def isNumber (v : Value) : Bool := v.kind == .number

/-- The unit symbol or currency code; nothing for a plain number. -/
def label (v : Value) : String := v.kind.label

/-- The value as messages show it: all digits, then the label. -/
def text (v : Value) : String :=
  match v.kind with
  | .number => Decimal.plain v.amount
  | .unit label | .currency label => Decimal.plain v.amount ++ " " ++ label

@[simp] theorem kind_withAmount (v : Value) (x : Float) : (v.withAmount x).kind = v.kind := rfl

@[simp] theorem amount_withAmount (v : Value) (x : Float) : (v.withAmount x).amount = x := rfl

end Value

end Reckoner

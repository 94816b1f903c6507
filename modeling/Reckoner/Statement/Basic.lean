import Reckoner.Statement.Function
import Reckoner.Token.Basic

/-!
# Statements

The tree of one line of input: an expression, possibly bound to a name, possibly converted to a unit.
-/

namespace Reckoner

/-- An operator between two operands. -/
inductive BinaryOp where
  | add
  | subtract
  | multiply
  | divide
  | remainder
  | power
deriving DecidableEq, Repr

def BinaryOp.text : BinaryOp → String
  | add => "+"
  | subtract => "-"
  | multiply => "*"
  | divide => "/"
  | remainder => "%"
  | power => "^"

/-- What is recalled of earlier results. -/
inductive Recall where
  | previous
  | sum
  | average
deriving DecidableEq, Repr

namespace Recall

def text : Recall → String
  | previous => "prev"
  | sum => "sum"
  | average => "average"

/-- What a keyword recalls. -/
def ofKeyword? : Keyword → Option Recall
  | .prev | .ans => some previous
  | .sum | .total => some sum
  | .average | .avg => some average
  | _ => none

end Recall

inductive Expr where
  | number (x : Float)
  /-- A value with a word behind it: a unit, a currency, or a name to multiply by. -/
  | quantity (value : Expr) (word : String)
  | name (name : String)
  /-- Something recalled of earlier results. -/
  | earlier (r : Recall)
  | negate (inner : Expr)
  | binary (op : BinaryOp) (left right : Expr)
  /-- `X%` -/
  | percent (inner : Expr)
  /-- `X% of Y` -/
  | percentOf (part base : Expr)
  | call (f : Function) (argument : Expr)
deriving DecidableEq, Repr

/-- Whether `p` holds of the expression or of one inside it. -/
def Expr.any (p : Expr → Bool) (e : Expr) : Bool :=
  p e ||
    match e with
    | .number _ | .name _ | .earlier _ => false
    | .quantity value _ => value.any p
    | .negate inner | .percent inner => inner.any p
    | .binary _ left right => left.any p || right.any p
    | .percentOf part base => part.any p || base.any p
    | .call _ argument => argument.any p

/-- One line of input. -/
structure Statement where
  /-- The name bound by `name = …`. -/
  assignment : Option String
  expression : Expr
  /-- The unit or currency named behind `to`, `in` or `as`. -/
  conversion : Option String
deriving DecidableEq, Repr

end Reckoner

import Reckoner.Action
import Reckoner.Arithmetic
import Reckoner.Memory

/-!
# Evaluating statements

An expression is evaluated against a memory that it only reads; every value on the way must be
finite. A statement may bind its value to a name once that value is known.
-/

namespace Reckoner

/-- What an evaluation reads. -/
structure Scope where
  memory : Memory
  locale : Locale

namespace Scope
variable (s : Scope)

/-- The tables for words and conversions. -/
def units : Units := ⟨s.memory.table, s.memory.rates, s.locale⟩

def bound? (name : String) : Option Value := s.memory.bindings.get? name

/-- The value of a name: a variable, else a constant. -/
def named? (name : String) : Option Value :=
  match s.bound? name with
  | some v => some v
  | none => (constant? name).map .number

def sumFrom (v : Value) : List Entry → Outcome Value
  | [] => .ok v
  | e :: es =>
    match s.units.add v e.result with
    | .error f => .error f
    | .ok v => sumFrom v es

/-- The sum of all results; nothing if there are none. -/
def historySum : Outcome (Option Value) :=
  match s.memory.history with
  | [] => .ok none
  | e :: es => (s.sumFrom e.result es).map some

/-- What is recalled of earlier results. -/
def recalled (r : Recall) : Outcome Value :=
  match r with
  | .previous =>
    match s.memory.lastResult? with
    | some v => .ok v
    | none => .error (.emptyHistory r)
  | .sum =>
    match s.historySum with
    | .error f => .error f
    | .ok none => .error (.emptyHistory r)
    | .ok (some v) => .ok v
  | .average =>
    match s.historySum with
    | .error f => .error f
    | .ok none => .error (.emptyHistory r)
    | .ok (some v) => s.units.divide v (.number (Double.ofNat s.memory.history.length))

/-- A value with a word behind it. -/
def quantity (v : Value) (word : String) : Outcome Value :=
  -- a variable hides a unit of its name, and a unit hides a constant
  match s.bound? word with
  | some factor => v.multiply factor
  | none =>
    if (s.units.resolve? word).isSome then s.units.convertTo v word
    else
      match s.named? word with
      | some factor => v.multiply factor
      | none => .error (.unknownUnit word)

def binary (op : BinaryOp) (a b : Value) : Outcome Value :=
  match op with
  | .add => s.units.add a b
  | .subtract => s.units.subtract a b
  | .multiply => a.multiply b
  | .divide => s.units.divide a b
  | .remainder => s.units.remainder a b
  | .power => a.power b

def call (f : Function) (v : Value) : Outcome Value :=
  if f.keepsUnit then .ok (v.withAmount (f.apply v.amount))
  else
    match if f.takesAngle then s.units.toRadians v else .ok v with
    | .error e => .error e
    | .ok v =>
      if v.isNumber then .ok (.number (f.apply v.amount)) else .error (.clash (.argument f v))

end Scope

/-- A value that is a number at all. -/
def finite (v : Value) : Outcome Value :=
  if v.amount.isFinite then .ok v else .error .notFinite

/-- The amount of a percentage, which must be a plain number. -/
def percentage (v : Value) : Outcome Float :=
  if v.isNumber then .ok v.amount else .error (.clash (.percentage v))

/-- The factor that adds or takes away a percentage, if that is what the operator does. -/
def adjustment? (op : BinaryOp) (x : Float) : Option Float :=
  match op with
  | .add => some (1 + x / 100)
  | .subtract => some (1 - x / 100)
  | _ => none

namespace Expr

/-- The value of an expression. -/
def eval (s : Scope) : Expr → Outcome Value
  | .number x => finite (.number x)
  | .quantity e word => do
    let v ← e.eval s
    finite (← s.quantity v word)
  | .name word =>
    match s.named? word with
    | some v => finite v
    | none => .error (.unknownVariable word)
  | .earlier r => do finite (← s.recalled r)
  | .negate e => do
    let v ← e.eval s
    finite v.negate
  | .binary op left (.percent e) => do
    let a ← left.eval s
    let x ← percentage (← e.eval s)
    -- a percentage behind a plus or minus sign is one of the left operand
    match adjustment? op x with
    | some factor => finite (a.withAmount (a.amount * factor))
    | none =>
      let b ← finite (.number (x / 100))
      finite (← s.binary op a b)
  | .binary op left right => do
    let a ← left.eval s
    let b ← right.eval s
    finite (← s.binary op a b)
  | .percent e => do
    let x ← percentage (← e.eval s)
    finite (.number (x / 100))
  | .percentOf e base => do
    let x ← percentage (← e.eval s)
    let b ← base.eval s
    finite (b.withAmount (b.amount * x / 100))
  | .call f e => do
    let v ← e.eval s
    finite (← s.call f v)

end Expr

namespace Statement

/-- The value of a statement, converted if it names a target. -/
def eval (s : Scope) (st : Statement) : Outcome Value :=
  match st.expression.eval s with
  | .error e => .error e
  | .ok v =>
    match st.conversion with
    | none => .ok v
    | some target =>
      match s.units.convertTo v target with
      | .error e => .error e
      | .ok v => finite v

/-- Evaluates a statement and binds its value to the name it assigns. The name is checked first, and
nothing is bound unless there is a value. -/
def run (st : Statement) (l : Locale) : Action Memory Value := do
  if let some name := st.assignment then
    ((checkName name).mapError .invalidName : Outcome Unit)
  let v ← st.eval ⟨← get, l⟩
  if let some name := st.assignment then
    Action.update (·.setVariable name v)
  return v

end Statement

end Reckoner

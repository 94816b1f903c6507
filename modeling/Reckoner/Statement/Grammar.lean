import Reckoner.Statement.Basic
import Reckoner.Parsing.Parser
import Reckoner.Locale

/-!
# The grammar of statements

```text
statement      := [name "="] expression [("to" | "in" | "as") target]
expression     := multiplicative (("+" | "-") multiplicative)*
multiplicative := power (("*" | "/" | "%") power)*
power          := unary ["^" power]
unary          := ("-" | "+")* suffixed
suffixed       := primary ["%" ["of" power]]
primary        := number [scale] [unit] | function "(" expression ")"
                | recall | "(" expression ")" [unit] | name
```

The assignment and the conversion are split off the token list first; what is left must be one
expression. A `%` in front of an operand is a remainder, any other one a percent sign.
-/

namespace Reckoner

open Reckoner.Parser

namespace Grammar

/-- Operands joined from the left. -/
def foldBinary (first : Expr) (rest : List (BinaryOp × Expr)) : Expr :=
  rest.foldl (fun left r => .binary r.1 left r.2) first

/-- The value with a word behind it, if there is one. -/
def withWord (value : Expr) : Option String → Expr
  | some word => .quantity value word
  | none => value

/-- The value with a percent sign, and what it is a percentage of, behind it. -/
def withSuffix : Expr × Option (Token × Option Expr) → Expr
  | (value, none) => value
  | (value, some (_, none)) => .percent value
  | (value, some (_, some base)) => .percentOf value base

/-- The operand behind signs, each of them a minus sign or not. -/
def withSigns (signs : List Bool) (operand : Expr) : Expr :=
  signs.foldr (fun negative e => if negative then .negate e else e) operand

/-- Whether a sign in front of an operand is a minus sign. -/
def sign? : Token → Option Bool
  | .operator .minus => some true
  | .operator .plus => some false
  | _ => none

/-- Whether a token can start an operand behind `%`. -/
def operandStart? : Token → Option Unit
  | .number _ | .identifier _ | .openParen => some ()
  | .keyword k => if k.isHistory then some () else none
  | _ => none

/-- The sign of an addition. -/
def additiveOp? : Token → Option BinaryOp
  | .operator .plus => some .add
  | .operator .minus => some .subtract
  | _ => none

/-- The sign of a product or quotient. -/
def productOp? : Token → Option BinaryOp
  | .operator .times => some .multiply
  | .operator .divide => some .divide
  | _ => none

def number? : Token → Option Float
  | .number x => some x
  | _ => none

def scaleWord? : Token → Option Float
  | .identifier word => scale? word
  | _ => none

/-- A word that can follow a value: any identifier but the name of a function. -/
def unitWord? : Token → Option String
  | .identifier word => if (Function.ofText? word).isNone then some word else none
  -- inches
  | .keyword .inWord => some Keyword.inWord.text
  | _ => none

/-- The name of a function. -/
def function? : Token → Option Function
  | .identifier name => Function.ofText? name
  | _ => none

/-- A word that recalls earlier results. -/
def earlier? : Token → Option Expr
  | .keyword k => (Recall.ofKeyword? k).map .earlier
  | _ => none

def name? : Token → Option Expr
  | .identifier name => some (.name name)
  | _ => none

/-- A `%` in front of an operand. -/
def remainderOp : Parser Token BinaryOp :=
  map (fun _ => .remainder)
    (terminated (equal (.operator .percent)) (peek (satisfy operandStart?)))

/-- A `%` that no operand follows. -/
def percentSign : Parser Token Token :=
  terminated (equal (.operator .percent)) (absent (satisfy operandStart?))

/-- The sign of a product, a quotient or a remainder. -/
def multiplicativeOp : Parser Token BinaryOp := choice [satisfy productOp?, remainderOp]

/-- A number with its scale and unit: `5`, `5k`, `5 km`, `2 million USD`. -/
def quantity : Parser Token Expr :=
  map (fun ((x, scale), word) => withWord (.number (x * scale.getD 1)) word)
    (pair (pair (satisfy number?) (optional (satisfy scaleWord?))) (optional (satisfy unitWord?)))

section
variable (power : Parser Token Expr)

/-- Powers joined by products, quotients and remainders. -/
def multiplicative : Parser Token Expr :=
  map (fun (first, rest) => foldBinary first rest) (pair power (many (pair multiplicativeOp power)))

/-- Products joined by sums and differences. -/
def additive : Parser Token Expr :=
  map (fun (first, rest) => foldBinary first rest)
    (pair (multiplicative power) (many (pair (satisfy additiveOp?) (multiplicative power))))

def whole : Parser Token Expr := within "expression" (additive power)

/-- An expression between parentheses. -/
def parenthesized : Parser Token Expr :=
  delimited (equal .openParen) (whole power) (equal .closeParen)

def call : Parser Token Expr :=
  map (fun (f, argument) => .call f argument) (pair (satisfy function?) (parenthesized power))

/-- An expression between parentheses with a unit: `(2 + 3) km`. -/
def group : Parser Token Expr :=
  map (fun (inner, word) => withWord inner word)
    (pair (parenthesized power) (optional (satisfy unitWord?)))

/-- An operand without signs. -/
def primary : Parser Token Expr :=
  choice [quantity, call power, satisfy earlier?, group power, satisfy name?]

/-- An operand with a percent sign: `X%`, `X% of Y`. -/
def suffixed : Parser Token Expr :=
  map withSuffix
    (pair (primary power)
      (optional (pair percentSign (optional (preceded (equal (.keyword .ofWord)) power)))))

/-- An operand with signs. -/
def unary : Parser Token Expr :=
  map (fun (signs, operand) => withSigns signs operand)
    (pair (many (satisfy sign?)) (suffixed power))

end

/-- A base and what is behind its `^`. -/
def raise : Expr × Option Expr → Expr
  | (base, none) => base
  | (base, some exponent) => .binary .power base exponent

/-- Powers, joined from the right. A power inside another one has fewer tokens left. -/
def power (c : Cursor Token) : Except ParseFault (Expr × Cursor Token) :=
  let inner := below c.rest.length fun d _ => power d
  map raise (pair (unary inner) (optional (preceded (equal (.operator .power)) inner))) c
termination_by c.rest.length

/-- The expression at the start of a token list. -/
def expression (ts : List Token) : Except ParseFault (Expr × Cursor Token) := whole power ⟨0, ts⟩

end Grammar

namespace Statement

/-- Whether a token introduces the target of a conversion. -/
def isConversionToken (l : Locale) : Token → Bool
  | .keyword k => k.isConversion
  | .identifier word => l.isConversionWord word
  | _ => false

/-- A leading `name =` and the tokens behind it. -/
def splitAssignment : List Token → Option String × List Token
  | t :: .operator .assign :: rest =>
    match t.word? with
    | some name => (some name, rest)
    | none => (none, t :: .operator .assign :: rest)
  | ts => (none, ts)

/-- The tokens before a conversion word and its target, and the target. -/
def splitConversion (l : Locale) (ts : List Token) : List Token × Option String :=
  -- only the last two tokens count: further left such a word is a unit or a name
  match ts.reverse with
  | target :: word :: head =>
    if head ≠ [] ∧ isConversionToken l word then
      match target.word? with
      | some unit => (head.reverse, some unit)
      | none => (ts, none)
    else (ts, none)
  | _ => (ts, none)

/-- The statement that a token list writes. Positions in faults count from the start of the list. -/
def parse (l : Locale) (ts : List Token) : Except ParseFault Statement :=
  let (assignment, rest) := splitAssignment ts
  let offset := if assignment.isSome then 2 else 0
  let (body, conversion) := splitConversion l rest
  match Grammar.expression body with
  | .error e => .error (e.shift offset)
  | .ok (expression, c) =>
    match c.rest with
    | [] => .ok ⟨assignment, expression, conversion⟩
    | t :: _ => .error (.unexpected t.text (c.position + offset))

end Statement

end Reckoner

import Reckoner.Failure
import Reckoner.Text.Lines

/-!
# Formulas and their renderings

A formula is a tree of literals, minus signs and operators; its value is computed from the leaves up
in doubles. A formula is written by pieces (`Renders`): parentheses stand wherever the precedence and
the associativity of operators need them, and may stand around any other part as well. A text spaces
pieces out (`Spaced`) if it is those pieces with blanks around them.
-/

namespace Reckoner

namespace Formula

/-- ASCII digits, at least one of them. -/
structure Numeral where
  digits : List Char
  nonempty : digits ≠ []
  decimal : ∀ c ∈ digits, c.isDigit = true

def Numeral.value (n : Numeral) : Nat :=
  n.digits.foldl (fun v c => v * 10 + (c.toNat - '0'.toNat)) 0

inductive Op where
  | add
  | subtract
  | multiply
  | divide
  | power
deriving DecidableEq

/-- A double that is a number at all. -/
def checked (x : Float) : Outcome Float := if x.isFinite then .ok x else .error .notFinite

/-- The value of an operator on doubles. -/
def Op.apply : Op → Float → Float → Outcome Float
  | .add, x, y => checked (x + y)
  | .subtract, x, y => checked (x - y)
  | .multiply, x, y => checked (x * y)
  | .divide, x, y => if y == 0 then .error .divisionByZero else checked (x / y)
  | .power, x, y => checked (x.pow y)

end Formula

inductive Formula where
  | literal (n : Formula.Numeral)
  | negate (a : Formula)
  | binary (op : Formula.Op) (a b : Formula)

namespace Formula

/-- The value of a formula, the left operand first. The first node without a finite value decides how
it fails. -/
def value : Formula → Outcome Float
  | literal n => checked (Double.ofNat n.value)
  | negate a => do checked (-(← a.value))
  | binary op a b => do
    let x ← a.value
    let y ← b.value
    op.apply x y

/-- What formulas are written with. -/
inductive Piece where
  | numeral (n : Numeral)
  | plus
  | minus
  | times
  | divide
  | caret
  /-- Another sign for powers. -/
  | stars
  | openParen
  | closeParen

namespace Piece

def text : Piece → List Char
  | numeral n => n.digits
  | plus => ['+']
  | minus => ['-']
  | times => ['*']
  | divide => ['/']
  | caret => ['^']
  | stars => ['*', '*']
  | openParen => ['(']
  | closeParen => [')']

/-- The sign of a sum or a difference. -/
def sum? : Piece → Option Op
  | plus => some .add
  | minus => some .subtract
  | _ => none

/-- The sign of a product or a quotient. -/
def product? : Piece → Option Op
  | times => some .multiply
  | divide => some .divide
  | _ => none

def isPower : Piece → Bool
  | caret | stars => true
  | _ => false

/-- Whether the piece is a sign, a minus sign in front of an operand included. -/
def isSign : Piece → Bool
  | plus | minus | times | divide | caret | stars => true
  | _ => false

end Piece

/-- What a formula is written as in its place, the loosest first. -/
inductive Level where
  | sum
  | product
  | power
  | signed
  | atom

/-- The pieces write the formula. Sums and products associate to the left, powers to the right, and a
minus sign binds tighter than a power. -/
inductive Renders : Level → Formula → List Piece → Prop where
  | summand {f w} : Renders .product f w → Renders .sum f w
  | sum {a b s op u v} : Renders .sum a u → Piece.sum? s = some op → Renders .product b v →
      Renders .sum (.binary op a b) (u ++ s :: v)
  | factor {f w} : Renders .power f w → Renders .product f w
  | product {a b s op u v} : Renders .product a u → Piece.product? s = some op →
      Renders .power b v → Renders .product (.binary op a b) (u ++ s :: v)
  | base {f w} : Renders .signed f w → Renders .power f w
  | power {a b s u v} : Renders .signed a u → Piece.isPower s = true → Renders .power b v →
      Renders .power (.binary .power a b) (u ++ s :: v)
  | unsigned {f w} : Renders .atom f w → Renders .signed f w
  | negate {a w} : Renders .signed a w → Renders .signed (.negate a) (.minus :: w)
  | literal {n} : Renders .atom (.literal n) [.numeral n]
  | parens {f w} : Renders .sum f w → Renders .atom f (.openParen :: (w ++ [.closeParen]))

/-- The text is the pieces with blanks before, between and behind them. -/
inductive Spaced : List Piece → List Char → Prop where
  | nil {blanks} : (∀ c ∈ blanks, Text.isBlank c = true) → Spaced [] blanks
  | cons {blanks p ps cs} : (∀ c ∈ blanks, Text.isBlank c = true) → Spaced ps cs →
      Spaced (p :: ps) (blanks ++ (p.text ++ cs))

/-- How many parentheses are open at the deepest place, when `depth` of them are open before. -/
def deepest (depth : Nat) : List Piece → Nat
  | [] => depth
  | .openParen :: ps => deepest (depth + 1) ps
  | .closeParen :: ps => max depth (deepest (depth - 1) ps)
  | _ :: ps => deepest depth ps

/-- How deep parentheses are nested. -/
def nesting (ps : List Piece) : Nat := deepest 0 ps

def signs (ps : List Piece) : Nat := ps.countP Piece.isSign

/-! ### Where operands end -/

namespace Piece

/-- Reads a piece, given whether an operand ends right before it, and tells whether one ends right
behind it. An operand cannot follow another one. -/
def step : Bool → Piece → Option Bool
  | false, numeral _ => some true
  | false, minus | false, openParen => some false
  | true, closeParen => some true
  | true, plus | true, minus | true, times | true, divide | true, caret | true, stars => some false
  | _, _ => none

/-- Reads pieces, one after the other. -/
def steps (ended : Bool) : List Piece → Option Bool
  | [] => some ended
  | p :: ps => (step ended p).bind (steps · ps)

theorem steps_append (u v : List Piece) (ended : Bool) :
    steps ended (u ++ v) = (steps ended u).bind (steps · v) := by
  induction u generalizing ended with
  | nil => rfl
  | cons p u ih =>
    show (step ended p).bind (steps · (u ++ v)) = ((step ended p).bind (steps · u)).bind _
    cases step ended p with
    | none => rfl
    | some ended => exact ih ended

/-- Two operands with a sign between them are an operand again. -/
theorem steps_operator {u v : List Piece} {s : Piece} (hs : step true s = some false)
    (hu : steps false u = some true) (hv : steps false v = some true) :
    steps false (u ++ s :: v) = some true := by
  rw [steps_append, hu]
  show (step true s).bind (steps · v) = some true
  rw [hs]
  exact hv

end Piece

/-- A rendering alternates between operands and operators. -/
theorem Renders.steps {k : Level} {f : Formula} {w : List Piece} (h : Renders k f w) :
    Piece.steps false w = some true := by
  induction h with
  | summand _ ih | factor _ ih | base _ ih | unsigned _ ih => exact ih
  | @sum a b s op u v _ hs _ iha ihb =>
    have hsign : Piece.step true s = some false := by cases s <;> first | rfl | exact nomatch hs
    exact Piece.steps_operator hsign iha ihb
  | @product a b s op u v _ hs _ iha ihb =>
    have hsign : Piece.step true s = some false := by cases s <;> first | rfl | exact nomatch hs
    exact Piece.steps_operator hsign iha ihb
  | @power a b s u v _ hs _ iha ihb =>
    have hsign : Piece.step true s = some false := by cases s <;> first | rfl | exact nomatch hs
    exact Piece.steps_operator hsign iha ihb
  | negate _ ih => exact ih
  | literal => rfl
  | @parens f w _ ih =>
    show Piece.steps false (w ++ [.closeParen]) = some true
    rw [Piece.steps_append, ih]
    rfl

end Formula

end Reckoner

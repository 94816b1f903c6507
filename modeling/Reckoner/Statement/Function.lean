import Reckoner.Double.Integral

/-!
# Functions and constants

The functions of one argument, the named constants and the scale words.
-/

namespace Reckoner

/-- A function of one argument. -/
inductive Function where
  | sqrt
  | abs
  | round
  | floor
  | ceil
  | ln
  | log
  | log2
  | exp
  | sin
  | cos
  | tan
  | asin
  | acos
  | atan
deriving DecidableEq, Repr

namespace Function

def all : List Function :=
  [sqrt, abs, round, floor, ceil, ln, log, log2, exp, sin, cos, tan, asin, acos, atan]

def text : Function → String
  | sqrt => "sqrt"
  | abs => "abs"
  | round => "round"
  | floor => "floor"
  | ceil => "ceil"
  | ln => "ln"
  | log => "log"
  | log2 => "log2"
  | exp => "exp"
  | sin => "sin"
  | cos => "cos"
  | tan => "tan"
  | asin => "asin"
  | acos => "acos"
  | atan => "atan"

/-- The function of this name. Case counts. -/
def ofText? (name : String) : Option Function := all.find? (·.text == name)

/-- Whether the result keeps the unit of the argument. -/
def keepsUnit : Function → Bool
  | abs | round | floor | ceil => true
  | _ => false

/-- Whether the argument is an angle, so that degrees are turned into radians first. -/
def takesAngle : Function → Bool
  | sin | cos | tan => true
  | _ => false

/-- The value of a function; `log` is the logarithm to base ten. -/
def apply : Function → Float → Float
  | sqrt, x => x.sqrt
  | abs, x => x.abs
  | round, x => Double.round x
  | floor, x => Double.floor x
  | ceil, x => Double.ceil x
  | ln, x => x.log
  | log, x => x.log10
  | log2, x => x.log2
  | exp, x => x.exp
  | sin, x => x.sin
  | cos, x => x.cos
  | tan, x => x.tan
  | asin, x => x.asin
  | acos, x => x.acos
  | atan, x => x.atan

theorem ofText?_text (f : Function) : ofText? f.text = some f := by cases f <;> decide

end Function

/-- The doubles next to the two named constants. -/
def constants : List (String × Float) := [("pi", 3.141592653589793), ("e", 2.718281828459045)]

def constant? (name : String) : Option Float :=
  (constants.find? (·.1 == name)).map (·.2)

/-- The words that scale the number before them. -/
def scales : List (String × Float) :=
  [("k", 1e3), ("thousand", 1e3), ("M", 1e6), ("million", 1e6), ("billion", 1e9),
    ("trillion", 1e12)]

def scale? (word : String) : Option Float := (scales.find? (·.1 == word)).map (·.2)

end Reckoner

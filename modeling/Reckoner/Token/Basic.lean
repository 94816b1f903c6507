import Reckoner.Decimal.Layout

/-!
# Tokens

The vocabulary that a text is cut into, and tokens with their place in it.
-/

namespace Reckoner

/-- Words with a meaning of their own. None of them can name a variable. -/
inductive Keyword where
  | prev
  | ans
  | sum
  | total
  | average
  | avg
  | ofWord
  | toWord
  | inWord
  | asWord
deriving DecidableEq, Repr

namespace Keyword

def all : List Keyword := [prev, ans, sum, total, average, avg, ofWord, toWord, inWord, asWord]

def text : Keyword → String
  | prev => "prev"
  | ans => "ans"
  | sum => "sum"
  | total => "total"
  | average => "average"
  | avg => "avg"
  | ofWord => "of"
  | toWord => "to"
  | inWord => "in"
  | asWord => "as"

/-- The keyword with this spelling. Case counts. -/
def ofText? (word : String) : Option Keyword := all.find? (·.text == word)

/-- Whether the keyword recalls earlier results. -/
def isHistory : Keyword → Bool
  | prev | ans | sum | total | average | avg => true
  | _ => false

/-- Whether the keyword introduces the target of a conversion. -/
def isConversion : Keyword → Bool
  | toWord | inWord | asWord => true
  | _ => false

theorem ofText?_text (k : Keyword) : ofText? k.text = some k := by cases k <;> decide

end Keyword

inductive Operator where
  | plus
  | minus
  | times
  | divide
  /-- Written `^` or `**`. -/
  | power
  /-- Percent or remainder; the grammar decides. -/
  | percent
  | assign
deriving DecidableEq, Repr

def Operator.text : Operator → String
  | plus => "+"
  | minus => "-"
  | times => "*"
  | divide => "/"
  | power => "^"
  | percent => "%"
  | assign => "="

inductive Token where
  | number (x : Float)
  | identifier (name : String)
  | keyword (k : Keyword)
  | operator (o : Operator)
  | openParen
  | closeParen
  | blank (text : String)
deriving DecidableEq, Repr

namespace Token

/-- The token as messages show it. -/
def text : Token → String
  | number x => Decimal.plain x
  | identifier name => name
  | keyword k => k.text
  | operator o => o.text
  | openParen => "("
  | closeParen => ")"
  | blank text => text

instance : ToString Token := ⟨text⟩

/-- The spelling of an identifier or a keyword. -/
def word? : Token → Option String
  | identifier name => some name
  | keyword k => some k.text
  | _ => none

def isBlank : Token → Bool
  | blank _ => true
  | _ => false

end Token

/-- A token with its place: byte offsets, and a column that counts characters from 1. -/
structure Lexeme where
  token : Token
  start : Nat
  stop : Nat
  column : Nat
deriving DecidableEq, Repr

/-- The place where no token starts, with the text found there. -/
structure TokenFault where
  found : String
  start : Nat
  stop : Nat
  column : Nat
deriving DecidableEq, Repr

def TokenFault.message (f : TokenFault) : String :=
  "unexpected '" ++ f.found ++ "' at column " ++ toString f.column ++ " (bytes " ++
    toString f.start ++ ".." ++ toString f.stop ++ ")"

end Reckoner

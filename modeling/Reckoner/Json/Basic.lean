import Reckoner.Decimal.Layout

/-!
# JSON texts as trees

A tree holds what a JSON text says without taking a position on what of it can be read: numerals keep
their digits, members their order and their duplicates.
-/

namespace Reckoner

/-- A numeral: a sign, digits, and an exponent if one is written. -/
structure Numeral where
  negative : Bool
  parts : Decimal.Written
deriving DecidableEq, Repr

/-- A JSON text. A string with half of a surrogate pair has no content: it may be skipped, not
read. -/
inductive Json where
  | null
  | bool (b : Bool)
  | number (n : Numeral)
  | text (content : Option String)
  | array (elements : List Json)
  | object (members : List (Option String × Json))
deriving Repr

namespace Numeral

/-- A numeral without point and exponent. -/
def ofNat (n : Nat) : Numeral := ⟨false, ⟨Nat.toDigits 10 n, [], none⟩⟩

/-- The numeral of a finite double: its shortest digits in the layout for data. -/
def ofDouble (x : Float) : Numeral :=
  match Double.read x with
  | .finite v => ⟨v.negative, Decimal.Layout.data.parts v⟩
  | _ => ofNat 0

def text (n : Numeral) : List Char :=
  Decimal.signed n.negative (n.parts.text Decimal.Layout.data.plusSign)

end Numeral

namespace Json

def string (s : String) : Json := .text (some s)

def double (x : Float) : Json := .number (.ofDouble x)

/-- An object with ordinary keys. -/
def fields (members : List (String × Json)) : Json :=
  .object (members.map fun m => (some m.1, m.2))

end Json

end Reckoner

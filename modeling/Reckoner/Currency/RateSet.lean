import Reckoner.Dictionary
import Reckoner.Date
import Reckoner.Decimal.Layout
import Reckoner.Text.Case

/-!
# Sets of exchange rates

A rate is what one unit of the base currency is worth in another currency. A set is made from given
rates by `RateSet.make`, which writes codes in upper case and refuses what is no code or no rate.
-/

namespace Reckoner

/-- Why rates are refused. -/
inductive RateFault where
  /-- The payload is not JSON. -/
  | malformed
  | notAnObject
  | missingDate
  | invalidDate (found : String)
  /-- The payload has not exactly one table of rates. -/
  | baseCount (count : Nat)
  | invalidTable (base : String)
  | invalidCode (code : String)
  | invalidRate (code value : String)
deriving DecidableEq, Repr

def RateFault.message : RateFault → String
  | malformed => "rate payload is not valid JSON"
  | notAnObject => "rate payload must be a JSON object"
  | missingDate => "rate payload has no \"date\" field"
  | invalidDate found => "invalid rate date '" ++ found ++ "', expected YYYY-MM-DD"
  | baseCount count =>
    "rate payload must contain exactly one base currency, found " ++ toString count
  | invalidTable base => "rates for base '" ++ base ++ "' must be a non-empty object"
  | invalidCode code => "invalid currency code '" ++ code ++ "'"
  | invalidRate code value =>
    "rate for '" ++ code ++ "' must be a positive number, got " ++ value

/-- Exchange rates of one day. -/
structure RateSet where
  date : Date
  base : String
  rates : Dictionary Float
deriving DecidableEq

/-- Whether a string can be a currency code: one to ten ASCII letters and digits. -/
def isCode (code : String) : Bool :=
  let cs := code.toList
  !cs.isEmpty && cs.length ≤ 10 && cs.all Char.isAlphanum

def normalizeCode (code : String) : Except RateFault String :=
  if isCode code then .ok (Text.asciiUpper code) else .error (.invalidCode code)

namespace RateSet

def enter (table : Dictionary Float) : List (String × Float) → Except RateFault (Dictionary Float)
  | [] => .ok table
  | (code, rate) :: rest =>
    match normalizeCode code with
    | .error e => .error e
    | .ok code =>
      if rate.isFinite && 0 < rate then enter (table.insert code rate) rest
      else .error (.invalidRate code (Decimal.plain rate))

/-- The set of these rates. The base has the rate one, whatever is given for it. -/
def make (date : Date) (base : String) (rates : List (String × Float)) :
    Except RateFault RateSet :=
  match normalizeCode base with
  | .error e => .error e
  | .ok base =>
    match enter .empty rates with
    | .error e => .error e
    | .ok table =>
      if table.entries.isEmpty then .error (.invalidTable base)
      else .ok ⟨date, base, table.insert base 1⟩

def rate? (s : RateSet) (code : String) : Option Float := s.rates.get? code

def contains (s : RateSet) (code : String) : Bool := s.rates.contains code

def size (s : RateSet) : Nat := s.rates.size

/-- The amount in another currency; fails with a code that has no rate. -/
def convert (s : RateSet) (amount : Float) (source target : String) : Except String Float :=
  if source = target then .ok amount
  else
    match s.rate? source, s.rate? target with
    | none, _ => .error source
    | some _, none => .error target
    | some a, some b => .ok (amount * b / a)

end RateSet

end Reckoner

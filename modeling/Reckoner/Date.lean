import Reckoner.Text.Lines
import Reckoner.Decimal.Layout
import Reckoner.Decimal.Read

/-!
# Dates

Days of the proleptic Gregorian calendar: their written form, two ways of reading it, and the day
count that ages are measured with.
-/

namespace Reckoner

/-- A day of the calendar. -/
structure Date where
  year : Int
  month : Nat
  day : Nat
deriving DecidableEq, Repr

namespace Date

def isLeap (year : Int) : Bool := year % 4 == 0 && (year % 100 != 0 || year % 400 == 0)

def daysIn (year : Int) (month : Nat) : Nat :=
  if month = 2 then (if isLeap year then 29 else 28)
  else if month = 4 ∨ month = 6 ∨ month = 9 ∨ month = 11 then 30
  else 31

/-- The first and the last year of the calendar. -/
def firstYear : Int := -262143
def lastYear : Int := 262142

/-- The date with these numbers, if the calendar has it. -/
def ofNumbers? (year : Int) (month day : Nat) : Option Date :=
  if firstYear ≤ year ∧ year ≤ lastYear ∧ 1 ≤ month ∧ month ≤ 12 ∧ 1 ≤ day ∧ day ≤ daysIn year month
  then some ⟨year, month, day⟩ else none

/-- At least `width` digits. -/
def digits (width n : Nat) : List Char :=
  let ds := Nat.toDigits 10 n
  List.replicate (width - ds.length) '0' ++ ds

/-- The written form `YYYY-MM-DD`; a year before 0 or after 9999 has a sign. -/
def text (d : Date) : String :=
  let year :=
    if d.year < 0 then '-' :: digits 4 d.year.natAbs
    else if 9999 < d.year then '+' :: digits 4 d.year.natAbs
    else digits 4 d.year.natAbs
  String.ofList (year ++ '-' :: digits 2 d.month ++ '-' :: digits 2 d.day)

/-- The number written by at most `most` digits and at least one, and the text behind. -/
def number? (most : Nat) (cs : List Char) : Option (Nat × List Char) :=
  let ds := (cs.take most).takeWhile Char.isDigit
  if ds = [] then none else some (Decimal.ofDigits 10 ds, cs.drop ds.length)

/-- The year, which may have a sign and then any number of digits, else at most four. -/
def year? (cs : List Char) : Option (Int × List Char) :=
  match Text.trimLeft cs with
  | '-' :: rest => (number? rest.length rest).map fun (n, r) => (-(n : Int), r)
  | '+' :: rest => (number? rest.length rest).map fun (n, r) => ((n : Int), r)
  | rest => (number? 4 rest).map fun (n, r) => ((n : Int), r)

/-- What stands between two numbers of a date and behind the last one. -/
structure Style where
  /-- Blanks may stand before a hyphen and at the end. -/
  spaced : Bool

def Style.gap (s : Style) (cs : List Char) : List Char := if s.spaced then Text.trimLeft cs else cs

def Style.next? (s : Style) (cs : List Char) : Option (Nat × List Char) :=
  match s.gap cs with
  | '-' :: rest => number? 2 (Text.trimLeft rest)
  | _ => none

/-- Reads a whole text as a date. Blanks may stand before each number. -/
def Style.read? (s : Style) (cs : List Char) : Option Date := do
  let (year, cs) ← year? cs
  let (month, cs) ← s.next? cs
  let (day, cs) ← s.next? cs
  if s.gap cs = [] then ofNumbers? year month day else none

/-- The form that rate payloads use. -/
def parse? (s : String) : Option Date := Style.read? ⟨false⟩ s.toList

/-- The more lenient form of the settings file. -/
def parseSpaced? (s : String) : Option Date := Style.read? ⟨true⟩ s.toList

/-- The days from 1970-01-01 to the date; years are counted from March so that the leap day is the
last of its year. -/
def dayNumber (d : Date) : Int :=
  let y : Int := if d.month ≤ 2 then d.year - 1 else d.year
  let m : Int := ((d.month : Int) + 9) % 12
  365 * y + y / 4 - y / 100 + y / 400 + (153 * m + 2) / 5 + (d.day - 1) - 719468

/-- Whether more than 24 hours have passed since the date began, at `now` seconds after 1970-01-01
UTC. -/
def isStale (d : Date) (now : Int) : Bool := 86400 < now - 86400 * d.dayNumber

end Date

end Reckoner

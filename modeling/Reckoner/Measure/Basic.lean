import Reckoner.Text.Case

/-!
# Units of measurement

A unit belongs to one category and has a factor, and for temperatures an offset, to the base unit of
its category: `base = amount * factor + offset`.
-/

namespace Reckoner

/-- A dimension of measurement. -/
inductive Category where
  | length
  | mass
  | time
  | temperature
  | area
  | volume
  | angle
  | data
  | speed
  | energy
  /-- A category that the settings introduce. -/
  | custom (name : String)
deriving DecidableEq, Repr

namespace Category

/-- The names of the built-in categories, in lower case. -/
def names : List (String × Category) :=
  [("length", length), ("mass", mass), ("weight", mass), ("time", time),
    ("temperature", temperature), ("area", area), ("volume", volume), ("angle", angle),
    ("angular", angle), ("data", data), ("speed", speed), ("energy", energy)]

/-- The category of a name, in any case; an unknown name makes a category of its own. -/
def ofName (name : String) : Category :=
  match names.find? (·.1 == Text.asciiLower name) with
  | some entry => entry.2
  | none => custom name

def text : Category → String
  | length => "length"
  | mass => "mass"
  | time => "time"
  | temperature => "temperature"
  | area => "area"
  | volume => "volume"
  | angle => "angle"
  | data => "data"
  | speed => "speed"
  | energy => "energy"
  | custom name => name

/-- Whether the settings introduce the category. -/
def isCustom : Category → Bool
  | custom _ => true
  | _ => false

end Category

structure Measure where
  /-- The symbol that identifies the unit and is displayed. -/
  symbol : String
  category : Category
  factor : Float
  offset : Float
deriving DecidableEq, Repr

def Measure.toBase (m : Measure) (amount : Float) : Float := amount * m.factor + m.offset

def Measure.fromBase (m : Measure) (base : Float) : Float := (base - m.offset) / m.factor

end Reckoner

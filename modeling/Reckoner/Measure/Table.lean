import Reckoner.Measure.Basic
import Reckoner.Dictionary
import Reckoner.Decimal.Layout
import Reckoner.Locale

/-!
# Tables of units

A table knows units by symbol and resolves names to symbols: a name of the locale first, then an
exact alias, then one that differs in case only.
-/

namespace Reckoner

/-- Why a unit cannot be added. -/
inductive MeasureFault where
  /-- The factor is not a positive number. -/
  | factor (name : String) (factor : Float)
  | temperature
deriving DecidableEq, Repr

def MeasureFault.message : MeasureFault → String
  | factor name x =>
    "unit '" ++ name ++ "' needs a positive factor, got " ++ Decimal.plain x
  | temperature => "temperature units cannot be redefined"

/-- Units by symbol, and the names they go by. -/
structure MeasureTable where
  measures : Dictionary Measure
  aliases : Dictionary String
deriving DecidableEq

namespace MeasureTable

def empty : MeasureTable := ⟨.empty, .empty⟩

instance : Inhabited MeasureTable := ⟨empty⟩

/-- Lets a name stand for a symbol. The name in lower case stands for it too unless it already stands
for something. -/
def addName (symbol : String) (aliases : Dictionary String) (name : String) : Dictionary String :=
  (aliases.insert name symbol).insertIfNew (Text.lowercase name) symbol

/-- Enters a unit under its symbol and other names. -/
def register (t : MeasureTable) (m : Measure) (names : List String) : MeasureTable :=
  ⟨t.measures.insert m.symbol m, (m.symbol :: names).foldl (addName m.symbol) t.aliases⟩

/-- Enters a unit of the settings. Its factor is relative to the base unit of the category. -/
def addCustom (t : MeasureTable) (category : Category) (name : String) (factor : Float) :
    Except MeasureFault MeasureTable :=
  if !(factor.isFinite && 0 < factor) then .error (.factor name factor)
  else if category = .temperature then .error .temperature
  else .ok (t.register ⟨name, category, factor, 0⟩ [])

def get? (t : MeasureTable) (symbol : String) : Option Measure := t.measures.get? symbol

def symbol? (t : MeasureTable) (l : Locale) (name : String) : Option String :=
  l.unitAlias name <|> t.aliases.get? name <|> t.aliases.get? (Text.lowercase name)

def lookup? (t : MeasureTable) (l : Locale) (name : String) : Option Measure :=
  (t.symbol? l name).bind t.get?

def size (t : MeasureTable) : Nat := t.measures.size

end MeasureTable

end Reckoner

import Reckoner.Currency.RateSet
import Reckoner.Memory

/-!
# Settings

What a settings file can say. The values are as they stand in the file; whether they make sense is
judged when they are prepared.
-/

namespace Reckoner

/-- A variable of the settings. -/
structure VariableSetting where
  value : Float
  /-- A word for a unit or currency. -/
  unit : Option String
deriving DecidableEq, Repr

/-- Exchange rates as the settings keep them. -/
structure RateRecord where
  date : Date
  base : String
  rates : Dictionary Float
deriving DecidableEq

def RateRecord.ofSet (s : RateSet) : RateRecord := ⟨s.date, s.base, s.rates⟩

/-- The rate set of a record, if its codes and rates are valid. -/
def RateRecord.toSet (r : RateRecord) : Except RateFault RateSet :=
  RateSet.make r.date r.base r.rates.entries

/-- The content of a settings file. -/
structure Settings where
  /-- The code of the locale to use. -/
  locale : Option String
  bindings : Dictionary VariableSetting
  /-- By the name of a category, units with their factors to the base unit of the category. -/
  customUnits : Dictionary (Dictionary Float)
  historyLimit : UInt64
  rates : Option RateRecord
  /-- When rates were last updated. -/
  ratesUpdated : Option Date
deriving DecidableEq

namespace Settings

def standard : Settings := ⟨none, .empty, .empty, UInt64.ofNat defaultLimit, none, none⟩

instance : Inhabited Settings := ⟨standard⟩

/-- The settings with these rates in place of any others. -/
def withRates (s : Settings) (rates : RateSet) : Settings :=
  { s with rates := some (.ofSet rates), ratesUpdated := some rates.date }

end Settings

end Reckoner

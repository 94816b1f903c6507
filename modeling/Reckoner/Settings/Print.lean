import Reckoner.Settings.Basic
import Reckoner.Json.Print

/-!
# Writing settings

The written form names all fields in order; rates, their date and the unit of a variable are left out
when there are none.
-/

namespace Reckoner

/-- A member that is left out when there is nothing to write. -/
def Json.member? {α : Type} (name : String) (write : α → Json) : Option α → List (String × Json)
  | some x => [(name, write x)]
  | none => []

def Dictionary.json {α : Type} (write : α → Json) (d : Dictionary α) : Json :=
  Json.fields (d.entries.map fun e => (e.1, write e.2))

def Date.json (d : Date) : Json := .string d.text

def VariableSetting.json (v : VariableSetting) : Json :=
  Json.fields (("value", .double v.value) :: Json.member? "unit" Json.string v.unit)

def RateRecord.json (r : RateRecord) : Json :=
  Json.fields [("date", r.date.json), ("base", .string r.base), ("rates", r.rates.json .double)]

namespace Settings

def json (s : Settings) : Json :=
  Json.fields <|
    [("locale", s.locale.elim .null .string),
      ("variables", s.bindings.json VariableSetting.json),
      ("custom_units", s.customUnits.json fun units => units.json .double),
      ("history_limit", .number (.ofNat s.historyLimit.toNat))] ++
    Json.member? "currency_rates" RateRecord.json s.rates ++
    Json.member? "rates_updated_at" Date.json s.ratesUpdated

/-- The text that a settings file holds. -/
def text (s : Settings) : String := String.ofList s.json.indented

end Settings

end Reckoner

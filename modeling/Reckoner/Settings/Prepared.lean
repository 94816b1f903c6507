import Reckoner.Settings.Basic
import Reckoner.Arithmetic
import Reckoner.Shared

/-!
# Preparing and applying settings

All of the settings are checked before any of them takes effect. Once prepared they can be applied
without failure.
-/

namespace Reckoner

/-- Settings that were checked and resolved. -/
structure Prepared where
  locale : Option Locale
  bindings : List (String × Value)
  table : MeasureTable
  limit : Nat
  rates : Option RateSet
  ratesDate : Option Date

namespace Settings

/-- Enters the units of one category. -/
def enterUnits (category : String) (t : MeasureTable) :
    List (String × Float) → Except SettingsFault MeasureTable
  | [] => .ok t
  | (unit, factor) :: rest =>
    match t.addCustom (.ofName category) unit factor with
    | .error e => .error (.badUnit category unit e)
    | .ok t => enterUnits category t rest

def enterCategories (t : MeasureTable) :
    List (String × Dictionary Float) → Except SettingsFault MeasureTable
  | [] => .ok t
  | (category, units) :: rest =>
    match enterUnits category t units.entries with
    | .error e => .error e
    | .ok t => enterCategories t rest

def variableKind (u : Units) (v : VariableSetting) : Except VariableFault Kind :=
  match v.unit with
  | none => .ok .number
  | some word =>
    match u.resolve? word with
    | some kind => .ok kind
    | none => .error (.unknownUnit word)

/-- The value of a variable whose name can be bound. -/
def variableValue (u : Units) (name : String) (v : VariableSetting) : Except VariableFault Value :=
  match checkName name with
  | .error e => .error (.invalidName e)
  | .ok () =>
    if v.value.isFinite then (variableKind u v).map fun kind => ⟨v.value, kind⟩
    else .error .notFinite

def variableValues (u : Units) :
    List (String × VariableSetting) → Except SettingsFault (List (String × Value))
  | [] => .ok []
  | (name, v) :: rest =>
    match variableValue u name v with
    | .error e => .error (.badVariable name e)
    | .ok value => (variableValues u rest).map ((name, value) :: ·)

/-- The locale that the settings ask for. -/
def locale? (s : Settings) : Except SettingsFault (Option Locale) :=
  match s.locale with
  | none => .ok none
  | some code =>
    match Locale.find? code with
    | some l => .ok (some l)
    | none => .error (.unknownLocale code)

/-- The rate set of the settings. -/
def rateSet? (s : Settings) : Except SettingsFault (Option RateSet) :=
  match s.rates with
  | none => .ok none
  | some r =>
    match r.toSet with
    | .ok set => .ok (some set)
    | .error e => .error (.rates e)

/-- Checks the settings. Units of variables are resolved by the units, rates and locale of the
settings; without a locale of their own, by the active one. -/
def prepare (s : Settings) (active : Locale) : Except SettingsFault Prepared := do
  let locale ← s.locale?
  let table ← enterCategories .builtin s.customUnits.entries
  let rates ← s.rateSet?
  let bindings ← variableValues ⟨table, rates, locale.getD active⟩ s.bindings.entries
  return {
    locale, bindings, table, rates
    limit := s.historyLimit.toNat
    ratesDate := s.ratesUpdated <|> rates.map (·.date) }

end Settings

namespace Prepared

/-- The memory with the settings in effect: a new table, a new limit, the variables bound over
others, and the rates if there are any. -/
def applyMemory (p : Prepared) (m : Memory) : Memory :=
  let m := { m with table := p.table }.setLimit p.limit
  let m := p.bindings.foldl (fun m e => m.bind e.1 e.2) m
  { m with rates := p.rates <|> m.rates }

/-- The shared state with the settings in effect. -/
def applyShared (p : Prepared) (s : Shared) : Shared :=
  { s with locale := p.locale.getD s.locale, ratesDate := p.ratesDate <|> s.ratesDate }

end Prepared

end Reckoner

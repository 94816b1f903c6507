import Reckoner.Settings.Basic
import Reckoner.Json.Number
import Reckoner.Json.Read

/-!
# Reading settings

A record is written as an object with named members, in any order and among others that are skipped,
or as an array of its fields in order. A known member may stand only once.
-/

namespace Reckoner

namespace Json

def double? : Json → Option Float
  | .number n => n.number?.map Number.double
  | _ => none

def text? : Json → Option String
  | .text content => content
  | _ => none

/-- A count that fits 64 bits. -/
def count? : Json → Option UInt64
  | .number n =>
    match n.number? with
    | some (.natural n) => some (UInt64.ofNat n)
    | _ => none
  | _ => none

/-- The date that a string writes. -/
def date? (v : Json) : Option Date := v.text?.bind Date.parseSpaced?

/-- Something that may be null. -/
def optional? {α : Type} (read : Json → Option α) : Json → Option (Option α)
  | .null => some none
  | v => (read v).map some

/-- Members whose keys have content. -/
def named? : List (Option String × Json) → Option (List (String × Json))
  | [] => some []
  | (none, _) :: _ => none
  | (some key, v) :: rest => (named? rest).map ((key, v) :: ·)

/-- Members with their values read. -/
def readMembers? {α : Type} (read : Json → Option α) :
    List (String × Json) → Option (List (String × α))
  | [] => some []
  | (key, v) :: rest =>
    match read v, readMembers? read rest with
    | some x, some xs => some ((key, x) :: xs)
    | _, _ => none

/-- An object as a dictionary. Of members with one key the last counts. -/
def dictionary? {α : Type} (read : Json → Option α) : Json → Option (Dictionary α)
  | .object members => ((named? members).bind (readMembers? read)).map Dictionary.ofList
  | _ => none

/-- The fields of a record with these names that are given. -/
def record? (names : List String) : Json → Option (List (String × Json))
  | .array elements => if elements.length ≤ names.length then some (names.zip elements) else none
  | .object members =>
    match named? members with
    | none => none
    | some members =>
      let known := members.filter fun m => names.contains m.1
      if (known.map (·.1)).Nodup then some known else none
  | _ => none

/-- The value of a field, or what it has when it is not given. -/
def field? {α : Type} (fields : List (String × Json)) (name : String) (absent : Option α)
    (read : Json → Option α) : Option α :=
  match lookupEntry name fields with
  | some v => read v
  | none => absent

end Json

def VariableSetting.ofJson? (v : Json) : Option VariableSetting := do
  let fields ← v.record? ["value", "unit"]
  let value ← Json.field? fields "value" none Json.double?
  let unit ← Json.field? fields "unit" (some none) (Json.optional? Json.text?)
  return ⟨value, unit⟩

def RateRecord.ofJson? (v : Json) : Option RateRecord := do
  let fields ← v.record? ["date", "base", "rates"]
  let date ← Json.field? fields "date" none Json.date?
  let base ← Json.field? fields "base" none Json.text?
  let rates ← Json.field? fields "rates" none (Json.dictionary? Json.double?)
  return ⟨date, base, rates⟩

namespace Settings

def fieldNames : List String :=
  ["locale", "variables", "custom_units", "history_limit", "currency_rates", "rates_updated_at"]

def ofJson? (v : Json) : Option Settings := do
  let fields ← v.record? fieldNames
  let locale ← Json.field? fields "locale" (some none) (Json.optional? Json.text?)
  let bindings ← Json.field? fields "variables" (some .empty)
    (Json.dictionary? VariableSetting.ofJson?)
  let customUnits ← Json.field? fields "custom_units" (some .empty)
    (Json.dictionary? (Json.dictionary? Json.double?))
  let limit ← Json.field? fields "history_limit" (some standard.historyLimit) Json.count?
  let rates ← Json.field? fields "currency_rates" (some none) (Json.optional? RateRecord.ofJson?)
  let updated ← Json.field? fields "rates_updated_at" (some none) (Json.optional? Json.date?)
  return ⟨locale, bindings, customUnits, limit, rates, updated⟩

/-- The settings that a text writes. -/
def read (text : String) : Except SettingsFault Settings :=
  match (Json.read? text.toList).bind ofJson? with
  | some s => .ok s
  | none => .error .malformed

end Settings

end Reckoner

import Reckoner.Currency.RateSet
import Reckoner.Json.Data
import Reckoner.Json.Read

/-!
# Rate payloads

The JSON form of a rate set: an object with the date and one other member, whose key is the base and
whose value holds the rates.
-/

namespace Reckoner.RateSet

/-- The rates of a table, in the order of its members. -/
def rates? : List (String × Data) → Except RateFault (List (String × Float))
  | [] => .ok []
  | (code, .number n) :: rest => (rates? rest).map fun rs => (code, n.double) :: rs
  | (code, other) :: _ => .error (.invalidRate code other.written)

def date? (members : List (String × Data)) : Except RateFault Date :=
  match lookupEntry "date" members with
  | none => .error .missingDate
  | some (.text s) =>
    match Date.parse? s with
    | some d => .ok d
    | none => .error (.invalidDate s)
  | some other => .error (.invalidDate other.written)

/-- The rate set of a payload. -/
def ofJson (payload : String) : Except RateFault RateSet :=
  match (Json.read? payload.toList).bind (Data.ofJson? Data.greatestDepth) with
  | none => .error .malformed
  | some (.object members) =>
    match date? members with
    | .error e => .error e
    | .ok date =>
      match members.filter (·.1 != "date") with
      | [(base, .object table)] =>
        match rates? table with
        | .error e => .error e
        | .ok rates => make date base rates
      | [(base, _)] => .error (.invalidTable base)
      | bases => .error (.baseCount bases.length)
  | some _ => .error .notAnObject

/-- The payload of a rate set, with codes in lower case and members in ascending order. -/
def toJson (s : RateSet) : String :=
  let rates := s.rates.entries.foldl
    (fun d e => d.insert (Text.lowercase e.1) (Json.double e.2)) Dictionary.empty
  let members := ((Dictionary.empty.insert "date" (Json.string s.date.text)).insert
    (Text.lowercase s.base) (Json.fields rates.entries))
  String.ofList (Json.fields members.entries).compact

end Reckoner.RateSet

import Reckoner.Shared
import Reckoner.Currency.Payload

/-!
# Fetching rates

Sources of rates are tried in order until one gives a valid payload. How a payload is obtained from a
source is left to the caller; how often the sources are asked is not.
-/

namespace Reckoner

/-- Where current rates come from, in the order they are asked. -/
def rateSources : List String :=
  ["https://cdn.jsdelivr.net/npm/@fawazahmed0/currency-api@latest/v1/currencies/usd.min.json",
    "https://latest.currency-api.pages.dev/v1/currencies/usd.min.json"]

/-- The least time between two attempts, in milliseconds. -/
def fetchInterval : Nat := 60000

/-- The rates of one source. -/
def fetchOne (download : String → Except String String) (source : String) : Except String RateSet :=
  match download source with
  | .error reason => .error reason
  | .ok payload =>
    (RateSet.ofJson payload).mapError fun _ => "rate source returned an invalid payload"

/-- The rates of the first source that gives any; else why each source failed. -/
def fetchFirst (download : String → Except String String) (failures : List String) :
    List String → Except FetchFault RateSet
  | [] => .error (.allSourcesFailed ("; ".intercalate failures.reverse))
  | source :: rest =>
    match fetchOne download source with
    | .ok rates => .ok rates
    | .error reason => fetchFirst download ((source ++ ": " ++ reason) :: failures) rest

/-- One attempt to fetch rates. It counts as an attempt whether it succeeds or not, unless it comes
too early. -/
def Shared.fetch (s : Shared) (now interval : Nat) (sources : List String)
    (download : String → Except String String) : Shared × Except FetchFault RateSet :=
  match s.beginFetch now interval with
  | .error e => (s, .error e)
  | .ok s => (s, fetchFirst download [] sources)

end Reckoner

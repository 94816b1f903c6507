import Reckoner.Failure

/-!
# What sessions share

The active locale, the date of the rates that were put into effect last, and the time of the last
attempt to fetch rates.
-/

namespace Reckoner

/-- The state that all sessions share. Times are in milliseconds. -/
structure Shared where
  locale : Locale
  ratesDate : Option Date
  lastFetch : Option Nat
deriving DecidableEq, Repr

namespace Shared

/-- The state before any session has changed it. -/
def new : Shared := ⟨.english, none, none⟩

instance : Inhabited Shared := ⟨new⟩

def setLocale (s : Shared) (code : String) : Outcome Shared :=
  match Locale.find? code with
  | some l => .ok { s with locale := l }
  | none => .error (.unknownLocale code)

/-- Notes the date of rates that were put into effect. -/
def recordRates (s : Shared) (d : Date) : Shared := { s with ratesDate := some d }

/-- Whether the rates are older than a day at `now` seconds after 1970-01-01 UTC, or there are
none. -/
def ratesStale (s : Shared) (now : Int) : Bool :=
  match s.ratesDate with
  | some d => d.isStale now
  | none => true

/-- Notes an attempt to fetch rates at a time, unless the last one is less than `interval` ago. -/
def beginFetch (s : Shared) (now interval : Nat) : Except FetchFault Shared :=
  let attempted : Shared := { s with lastFetch := some now }
  match s.lastFetch with
  | none => .ok attempted
  | some last =>
    if now - last < interval then .error (.rateLimited (max 1 ((interval - (now - last)) / 1000)))
    else .ok attempted

end Shared

end Reckoner

import Reckoner.Failure
import Reckoner.Measure.Catalog
import Reckoner.Currency.RateSet

/-!
# What a session remembers

Variables, the latest results up to a limit, and the tables that units and currencies are resolved
by. Results are numbered by natural numbers: a counter of 64 bits would have the same values for the
first `2^64` evaluations of a session, and no place for the next one.
-/

namespace Reckoner

/-- One successful evaluation. -/
structure Entry where
  input : String
  result : Value
  formatted : String
  /-- Counts the evaluations of a session from zero. -/
  sequence : Nat
deriving DecidableEq, Repr

/-- The state that evaluations read and change. -/
structure Memory where
  bindings : Dictionary Value
  /-- The retained results, the oldest first. -/
  history : List Entry
  /-- How many results are retained; at least one. -/
  limit : Nat
  nextSequence : Nat
  rates : Option RateSet
  table : MeasureTable
  /-- The settings file that was loaded last. -/
  settingsPath : Option String
deriving DecidableEq

/-- How many results are retained unless the settings say otherwise. -/
def defaultLimit : Nat := 1000

def isReserved (name : String) : Bool := (Keyword.ofText? name).isSome

/-- Whether a name is a letter or underscore with letters, digits and underscores behind it. -/
def isIdentifier (name : String) : Bool :=
  match name.toList with
  | [] => false
  | c :: cs => Text.isNameStart c && cs.all Text.isNamePart

/-- Checks that a name can be bound: an identifier that is neither a keyword nor a function. -/
def checkName (name : String) : Except NameFault Unit :=
  if !isIdentifier name then .error (.notIdentifier name)
  else if isReserved name || (Function.ofText? name).isSome then .error (.reserved name)
  else .ok ()

namespace Memory

def new : Memory where
  bindings := .empty
  history := []
  limit := defaultLimit
  nextSequence := 0
  rates := none
  table := .builtin
  settingsPath := none

instance : Inhabited Memory := ⟨new⟩

/-- The latest `limit` entries. -/
def latest (limit : Nat) (history : List Entry) : List Entry :=
  history.drop (history.length - limit)

/-- Binds a name that has been checked. -/
def bind (m : Memory) (name : String) (v : Value) : Memory :=
  { m with bindings := m.bindings.insert name v }

def setVariable (m : Memory) (name : String) (v : Value) : Outcome Memory :=
  match checkName name with
  | .error e => .error (.invalidName e)
  | .ok () => .ok (m.bind name v)

/-- Adds a result to the history and drops the oldest ones beyond the limit. -/
def record (m : Memory) (input : String) (result : Value) (formatted : String) : Memory :=
  { m with
    history := latest m.limit (m.history ++ [⟨input, result, formatted, m.nextSequence⟩])
    nextSequence := m.nextSequence + 1 }

def lastResult? (m : Memory) : Option Value := m.history.getLast?.map (·.result)

/-- Forgets all results; sequence numbers go on. -/
def clearHistory (m : Memory) : Memory := { m with history := [] }

def clearVariables (m : Memory) : Memory := { m with bindings := .empty }

/-- Changes the limit, dropping the oldest results beyond it. A limit of zero counts as one. -/
def setLimit (m : Memory) (limit : Nat) : Memory :=
  { m with limit := max limit 1, history := latest (max limit 1) m.history }

end Memory

end Reckoner

import Reckoner.Answer
import Reckoner.Shared
import Reckoner.Settings.File
import Reckoner.Settings.Prepared
import Reckoner.Currency.Payload

/-!
# Sessions

A session has a memory of its own and shares the locale and the date of the rates with all others.
`Session.perform` does one operation, `Session.run` one after the other. Settings are loaded from the
text of a file: one whose bytes are not UTF-8 can only be given as missing, and is unreadable.
-/

namespace Reckoner

/-- A session together with what it shares. -/
structure Session where
  memory : Memory
  shared : Shared
deriving DecidableEq

namespace Session

def new : Session := ⟨.new, .new⟩

instance : Inhabited Session := ⟨new⟩

def onMemory {α : Type} (a : Action Memory α) : Action Session α :=
  Action.onPart Session.memory (fun s memory => { s with memory }) a

def onShared {α : Type} (a : Action Shared α) : Action Session α :=
  Action.onPart Session.shared (fun s shared => { s with shared }) a

/-- Answers an input and records it. -/
def evaluate (text : String) : Action Session Answer := do
  onMemory (Memory.answering .standard (← get).shared.locale text)

/-- Answers an input that is given by its bytes. -/
def evaluateBytes (bytes : List UInt8) : Action Session Answer :=
  if greatestInput < bytes.length then throw (.inputTooLarge bytes.length)
  else
    match Utf8.decode bytes with
    | .error e => throw (.input (.notUtf8 e))
    | .ok cs => evaluate (String.ofList cs)

/-- The answer that an input would get. -/
def preview (s : Session) (text : String) : Outcome Answer :=
  s.memory.preview .standard s.shared.locale text

/-- What units and currencies are resolved by. -/
def units (s : Session) : Units := ⟨s.memory.table, s.memory.rates, s.shared.locale⟩

/-- The kind that a word names; without a word, or with a blank one, a plain number. -/
def kindOf (s : Session) (word : Option String) : Outcome Kind :=
  match (word.map Text.trimmed).filter (· != "") with
  | none => .ok .number
  | some word =>
    match s.units.resolve? word with
    | some kind => .ok kind
    | none => .error (.unknownUnit word)

/-- Binds a name to an amount in a unit or currency. -/
def setVariable (name : String) (amount : Float) (unit : Option String) : Action Session Unit := do
  if amount.isFinite then
    let kind ← (← get).kindOf unit
    onMemory (Action.update (·.setVariable name ⟨amount, kind⟩))
  else throw .notFinite

/-- Applies a settings file. -/
def loadSettings (path : String) (content : Option String) : Action Session Unit := do
  let locale := (← get).shared.locale
  let p ←
    (((Settings.ofFile path content).bind (·.prepare locale)).mapError .settings : Outcome Prepared)
  -- all of it is valid, so that nothing can fail once the first part is in effect
  onShared (modify p.applyShared)
  onMemory (modify p.applyMemory)
  onMemory (modify fun m => { m with settingsPath := some path })

/-- Puts rates into effect. -/
def storeRates (rates : RateSet) : Action Session Unit := do
  onMemory (modify fun m => { m with rates := some rates })
  onShared (modify (·.recordRates rates.date))

/-- Puts the rates of a payload into effect and gives their date. -/
def setRates (payload : String) : Action Session Date := do
  let rates ← ((RateSet.ofJson payload).mapError fun e => .settings (.rates e) : Outcome RateSet)
  storeRates rates
  return rates.date

def setLocale (code : String) : Action Session Unit := onShared (Action.update (·.setLocale code))

def clearVariables : Action Session Unit := onMemory (modify Memory.clearVariables)

def clearHistory : Action Session Unit := onMemory (modify Memory.clearHistory)

end Session

/-- What can be asked of a session. -/
inductive Operation where
  | evaluate (text : String)
  | evaluateBytes (bytes : List UInt8)
  | preview (text : String)
  | setVariable (name : String) (amount : Float) (unit : Option String)
  /-- The content is missing when there is no file, or none that is a text. -/
  | loadSettings (path : String) (content : Option String)
  | setRates (payload : String)
  | setLocale (code : String)
  | clearVariables
  | clearHistory

/-- What an operation gives. -/
inductive Reply where
  | done
  | answer (a : Answer)
  | date (d : Date)
deriving DecidableEq, Repr

namespace Session

/-- Does an operation and replies to it. -/
def perform : Operation → Action Session Reply
  | .evaluate text => .answer <$> evaluate text
  | .evaluateBytes bytes => .answer <$> evaluateBytes bytes
  | .preview text => do return .answer (← (← get).preview text)
  | .setVariable name amount unit => do setVariable name amount unit; return .done
  | .loadSettings path content => do loadSettings path content; return .done
  | .setRates payload => .date <$> setRates payload
  | .setLocale code => do setLocale code; return .done
  | .clearVariables => do clearVariables; return .done
  | .clearHistory => do clearHistory; return .done

/-- The session after an operation, be it done or refused. -/
def step (s : Session) (op : Operation) : Session := ((perform op).exec s).2

/-- The session after operations, one after the other. -/
def run (s : Session) (ops : List Operation) : Session := ops.foldl step s

end Session

/-- Several sessions with one shared state. -/
structure Host where
  shared : Shared
  memories : List Memory

namespace Host

def new (sessions : Nat) : Host := ⟨.new, List.replicate sessions .new⟩

/-- The session with an index. -/
def session? (h : Host) (i : Nat) : Option Session := h.memories[i]?.map fun m => ⟨m, h.shared⟩

/-- The host with the session of an index replaced. -/
def put (h : Host) (i : Nat) (s : Session) : Host := ⟨s.shared, h.memories.set i s.memory⟩

/-- The reply of a session to an operation, and the host after it. -/
def perform (h : Host) (i : Nat) (op : Operation) : Option (Outcome Reply × Host) :=
  (h.session? i).map fun s =>
    let (reply, s) := (Session.perform op).exec s
    (reply, h.put i s)

end Host

end Reckoner

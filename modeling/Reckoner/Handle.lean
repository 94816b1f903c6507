import Reckoner.Session

/-!
# Sessions behind handles

Hosts that know only bytes and numbers reach a session through a handle, which may be absent. They
pass texts as bytes that end at the first zero, or pass none; failures go back as status numbers.
-/

namespace Reckoner

/-- The bytes that a host passes for a text, if it passes any. -/
abbrev PassedText := Option (List UInt8)

/-- The session that a host holds, if it holds one. -/
abbrev Handle := Option Session

/-- The bytes before the terminating zero. -/
def terminated (bytes : List UInt8) : List UInt8 := bytes.takeWhile (· != 0)

/-- A text without zero characters, which would end it early. -/
def withoutZeros (s : String) : String := String.ofList (s.toList.filter (· != '\x00'))

/-- The bytes that were passed, which have to be there. -/
def PassedText.bytes (p : PassedText) : Outcome (List UInt8) :=
  match p with
  | none => .error (.input .noText)
  | some bytes => .ok (terminated bytes)

/-- The text that was passed, which has to be there and well encoded. -/
def PassedText.text (p : PassedText) : Outcome String :=
  match p.bytes with
  | .error e => .error e
  | .ok bytes =>
    match Utf8.decode bytes with
    | .error e => .error (.input (.textNotUtf8 e))
    | .ok cs => .ok (String.ofList cs)

/-- A text that need not be passed. -/
def PassedText.text? (p : PassedText) : Outcome (Option String) :=
  if p.isNone then .ok none else p.text.map some

/-- Zero for a success, else the negated number of the failure. -/
def status {α : Type} : Outcome α → Int
  | .ok _ => 0
  | .error e => -(e.code : Int)

/-- What an evaluation through a handle gives. -/
structure Output where
  /-- Not a number when the evaluation fails. -/
  amount : Float
  formatted : Option String
  unit : Option String
  errorText : Option String
deriving DecidableEq, Repr

/-- The output for an outcome. -/
def Output.ofOutcome : Outcome Answer → Output
  | .ok a =>
    ⟨a.value.amount, some (withoutZeros a.formatted), some (withoutZeros a.value.label), none⟩
  | .error e => ⟨Double.notANumber, none, none, some (withoutZeros e.message)⟩

/-- The output when there is no place to write texts to. -/
def Output.amountOnly (o : Output) : Output := ⟨o.amount, none, none, none⟩

namespace Handle

/-- The session behind a handle, which has to be there. -/
def session (h : Handle) : Outcome Session :=
  match h with
  | none => .error (.input .noSession)
  | some s => .ok s

/-- Does an action on the session behind a handle. -/
def perform {α : Type} (h : Handle) (a : Action Session α) : Outcome α × Handle :=
  match h.session with
  | .error e => (.error e, h)
  | .ok s =>
    let (r, s) := a.exec s
    (r, some s)

/-- An action that only changes the session: its status and the handle after it. -/
def change (h : Handle) (a : Action Session Unit) : Int × Handle :=
  let (r, h) := h.perform a
  (status r, h)

/-- The outcome of evaluating an input. -/
def answer (h : Handle) (input : PassedText) : Outcome Answer × Handle :=
  h.perform do Session.evaluateBytes (← input.bytes)

def evaluate (h : Handle) (input : PassedText) : Output × Handle :=
  let (r, h) := h.answer input
  (.ofOutcome r, h)

/-- The answer to an input that is given by its bytes. -/
def previewBytes (s : Session) (bytes : List UInt8) : Outcome Answer :=
  match Utf8.decode bytes with
  | .error e => .error (.input (.notUtf8 e))
  | .ok cs => s.preview (String.ofList cs)

/-- The outcome that evaluating an input would have. -/
def previewAnswer (h : Handle) (input : PassedText) : Outcome Answer :=
  h.session.bind fun s => input.bytes.bind (previewBytes s)

/-- The output that an input would give. -/
def preview (h : Handle) (input : PassedText) : Output := .ofOutcome (h.previewAnswer input)

def setVariable (h : Handle) (name : PassedText) (amount : Float) (unit : PassedText) :
    Int × Handle :=
  h.change do
    let name ← name.text
    let unit ← unit.text?
    Session.setVariable name amount unit

/-- Loads the settings file at a path; `read` gives the content of a file. -/
def loadSettings (h : Handle) (path : PassedText) (read : String → Option String) : Int × Handle :=
  h.change do
    let path ← path.text
    Session.loadSettings path (read path)

def setRates (h : Handle) (payload : PassedText) : Int × Handle :=
  h.change do
    let _ ← Session.setRates (← payload.text)

def clearVariables (h : Handle) : Handle := (h.perform Session.clearVariables).2

def clearHistory (h : Handle) : Handle := (h.perform Session.clearHistory).2

/-- The number of retained results, or -1 where there is no session. -/
def historyCount (h : Handle) : Int :=
  match h with
  | none => -1
  | some s => s.memory.history.length

end Handle

def Shared.changeLocale (s : Shared) (code : PassedText) : Int × Shared :=
  match code.text.bind s.setLocale with
  | .ok s' => (0, s')
  | .error e => (-(e.code : Int), s)

def Locale.at? (index : Int) : Option Locale :=
  if index < 0 then none else Locale.catalog[index.toNat]?

end Reckoner

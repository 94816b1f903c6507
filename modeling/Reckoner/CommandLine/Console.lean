import Reckoner.CommandLine.Options
import Reckoner.Currency.Fetch
import Reckoner.Session

/-!
# The console

What the program prints: the answers to the inputs of the command line, or to the lines of standard
input, where `:clear` and `:history` are commands.
-/

namespace Reckoner

/-- Texts for the two output streams. -/
structure Printed where
  out : String
  err : String
deriving DecidableEq, Repr

namespace Printed

def empty : Printed := ⟨"", ""⟩

def line (s : String) : Printed := ⟨s ++ "\n", ""⟩

/-- A line on standard error that tells a failure. -/
def failure (e : Failure) : Printed := ⟨"", "Error: " ++ e.message ++ "\n"⟩

def append (a b : Printed) : Printed := ⟨a.out ++ b.out, a.err ++ b.err⟩

instance : Append Printed := ⟨append⟩

end Printed

/-- An entry of the history as it is listed, its number in four columns. -/
def Entry.listed (e : Entry) : String :=
  let number := Nat.toDigits 10 e.sequence
  String.ofList (List.replicate (4 - number.length) ' ' ++ number) ++ "  " ++ e.input ++ " = " ++
    e.formatted

/-- What the program ends with. -/
structure Ending where
  printed : Printed
  exit : Nat
deriving DecidableEq, Repr

namespace Console

/-- Answers an input; gives what is printed and whether there is an answer. -/
def answer (s : Session) (text : String) : Printed × Bool × Session :=
  match (Session.evaluate text).exec s with
  | (.ok a, s) => (.line a.formatted, true, s)
  | (.error e, s) => (.failure e, false, s)

/-- Answers inputs one after the other. -/
def answerAll (s : Session) : List String → Printed × Bool
  | [] => (.empty, true)
  | text :: rest =>
    let (printed, ok, s) := answer s text
    let (more, allOk) := answerAll s rest
    (printed ++ more, ok && allOk)

/-- Handles one line of standard input. -/
def readLine (s : Session) (line : String) : Printed × Session :=
  let text := Text.trimmed line
  if text = "" then (.empty, s)
  else if text = ":clear" then (.empty, (Session.clearHistory.exec s).2)
  else if text = ":history" then
    (⟨String.join (s.memory.history.map fun e => e.listed ++ "\n"), ""⟩, s)
  else
    let (printed, _, s) := answer s text
    (printed, s)

def readLines (s : Session) : List String → Printed
  | [] => .empty
  | line :: rest =>
    let (printed, s) := readLine s line
    printed ++ readLines s rest

/-- A session with the settings file and locale that the options ask for. A file that is asked for
must exist; the default one need not. -/
def openSession (o : Options) (path content : Option String) : Outcome Session :=
  let opening : Action Session Unit := do
    match path, content with
    | some path, some _ => Session.loadSettings path content
    | some path, none => if o.settings.isSome then throw (.input (.noSettingsFile path))
    | none, _ => pure ()
    if let some code := o.locale then
      Session.setLocale code
  (opening.outcome .new).map (·.2)

/-- Fetches rates and puts them into effect; gives also the new content of the settings file. -/
def updateRates (s : Session) (path content : Option String) (now : Nat)
    (download : String → Except String String) : Outcome (String × Session) :=
  let (shared, fetched) := s.shared.fetch now fetchInterval rateSources download
  match fetched, path with
  | .error e, _ => .error (.fetch e)
  | .ok _, none => .error (.settings .noDirectory)
  | .ok rates, some path =>
    match Settings.persist path content rates with
    | .error e => .error (.settings e)
    | .ok text => .ok (text, ((Session.storeRates rates).exec { s with shared }).2)

/-- The end after a failure to start. -/
def abort (e : Failure) : Ending := ⟨.failure e, 2⟩

/-- Answers the inputs of the options, or else the lines of standard input. -/
def serve (s : Session) (o : Options) (lines : List String) : Ending :=
  if o.inputs = [] then ⟨readLines s lines, 0⟩
  else
    let (printed, ok) := answerAll s o.inputs
    ⟨printed, if ok then 0 else 1⟩

/-- The whole run of the program without updating rates. -/
def run (o : Options) (path content : Option String) (lines : List String) : Ending :=
  match openSession o path content with
  | .error e => abort e
  | .ok s => serve s o lines

def versionText : String := "numby 0.1.0\n"

def helpText : String :=
  "Usage: numby [OPTIONS] [EXPRS]...\n\n" ++
  "Arguments:\n  [EXPRS]...  Expressions to evaluate in order; reads stdin when empty\n\n" ++
  "Options:\n" ++
  "  -c, --config <CONFIG>  Path to config file (defaults to the platform config directory)\n" ++
  "  -l, --locale <LOCALE>  Locale code\n" ++
  "      --update-rates     Download current currency rates before evaluating\n" ++
  "  -v, --verbose          Enable debug logging\n" ++
  "  -h, --help             Print help\n" ++
  "  -V, --version          Print version\n"

end Console

end Reckoner

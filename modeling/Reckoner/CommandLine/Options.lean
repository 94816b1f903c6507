/-!
# Command-line options

Arguments are read from left to right. `--` ends the options; before it an argument with a hyphen is
an option, several short ones may share a hyphen, and a value follows its option directly, behind an
equals sign, or as the next argument.
-/

namespace Reckoner

/-- The options. -/
inductive Flag where
  | settings
  | locale
  | updateRates
  | verbose
  | help
  | version
deriving DecidableEq, Repr

namespace Flag

def longNames : List (String × Flag) :=
  [("config", settings), ("locale", locale), ("update-rates", updateRates), ("verbose", verbose),
    ("help", help), ("version", version)]

def letters : List (Char × Flag) :=
  [('c', settings), ('l', locale), ('v', verbose), ('h', help), ('V', version)]

def ofLong? (name : String) : Option Flag := (longNames.find? (·.1 == name)).map (·.2)

def ofLetter? (c : Char) : Option Flag := (letters.find? (·.1 == c)).map (·.2)

def text : Flag → String
  | settings => "config"
  | locale => "locale"
  | updateRates => "update-rates"
  | verbose => "verbose"
  | help => "help"
  | version => "version"

/-- Whether an option has a value. -/
def takesValue : Flag → Bool
  | settings | locale => true
  | _ => false

end Flag

/-- Why arguments are rejected. -/
inductive OptionFault where
  | unknown (argument : String)
  | missingValue (f : Flag)
  | unexpectedValue (f : Flag)
  | repeated (f : Flag)
deriving DecidableEq, Repr

def OptionFault.message : OptionFault → String
  | unknown argument => "unexpected argument '" ++ argument ++ "' found"
  | missingValue f => "a value is required for '--" ++ f.text ++ "' but none was supplied"
  | unexpectedValue f => "unexpected value for '--" ++ f.text ++ "' found; no more were expected"
  | repeated f => "the argument '--" ++ f.text ++ "' cannot be used multiple times"

/-- What the arguments say. -/
structure Options where
  /-- The path of the settings file. -/
  settings : Option String
  locale : Option String
  updateRates : Bool
  verbose : Bool
  /-- The inputs to answer; without any they come line by line. -/
  inputs : List String
deriving DecidableEq, Repr

/-- What the program is asked to do. -/
inductive Request where
  | run (o : Options)
  | help
  | version
deriving DecidableEq, Repr

/-- What one argument does to the options read so far. -/
inductive Effect where
  | options (o : Options)
  /-- The next argument is the value of an option. -/
  | await (f : Flag) (o : Options)
  /-- The rest of the arguments does not matter. -/
  | stop (r : Request)
deriving DecidableEq, Repr

namespace Options

def empty : Options := ⟨none, none, false, false, []⟩

/-- Gives an option its value. -/
def setValue (o : Options) (f : Flag) (value : String) : Except OptionFault Options :=
  match f with
  | .settings =>
    -- a path is not empty; a locale may be, and is then unknown
    if value = "" then .error (.missingValue f)
    else if o.settings.isSome then .error (.repeated f)
    else .ok { o with settings := some value }
  | .locale =>
    if o.locale.isSome then .error (.repeated f) else .ok { o with locale := some value }
  | _ => .error (.unexpectedValue f)

def turnOn (o : Options) (f : Flag) : Except OptionFault Effect :=
  match f with
  | .updateRates =>
    if o.updateRates then .error (.repeated f) else .ok (.options { o with updateRates := true })
  | .verbose => if o.verbose then .error (.repeated f) else .ok (.options { o with verbose := true })
  | .help => .ok (.stop .help)
  | .version => .ok (.stop .version)
  | .settings | .locale => .ok (.await f o)

/-- Reads an argument behind two hyphens. -/
def readLong (o : Options) (cs : List Char) : Except OptionFault Effect :=
  let name := String.ofList (cs.takeWhile (· != '='))
  match Flag.ofLong? name, cs.dropWhile (· != '=') with
  | none, _ => .error (.unknown ("--" ++ name))
  | some f, [] => o.turnOn f
  | some f, _ :: value =>
    if f.takesValue then (o.setValue f (String.ofList value)).map .options
    else .error (.unexpectedValue f)

/-- Reads the letters behind one hyphen. What follows the letter of an option with value is the
value. -/
def readLetters (o : Options) : List Char → Except OptionFault Effect
  | [] => .ok (.options o)
  | c :: rest =>
    match Flag.ofLetter? c with
    | none => .error (.unknown (String.ofList ['-', c]))
    | some f =>
      if f.takesValue then
        match rest with
        | [] => .ok (.await f o)
        | '=' :: value => (o.setValue f (String.ofList value)).map .options
        | value => (o.setValue f (String.ofList value)).map .options
      else
        match o.turnOn f with
        | .ok (.options o) => readLetters o rest
        | other => other

/-- Whether an argument is an option or ends the options. -/
def isOption (argument : String) : Bool :=
  match argument.toList with
  | '-' :: _ :: _ => true
  | _ => false

def readArgument (o : Options) (argument : String) : Except OptionFault Effect :=
  match argument.toList with
  | '-' :: '-' :: cs => o.readLong cs
  | '-' :: c :: cs => o.readLetters (c :: cs)
  | _ => .ok (.options { o with inputs := o.inputs ++ [argument] })

/-- Reads arguments, the first one as the value of an option if one is awaited. -/
def readFrom (awaited : Option Flag) (o : Options) : List String → Except OptionFault Request
  | [] =>
    match awaited with
    | some f => .error (.missingValue f)
    | none => .ok (.run o)
  | argument :: rest =>
    match awaited with
    | some f =>
      if isOption argument then .error (.missingValue f)
      else
        match o.setValue f argument with
        | .error e => .error e
        | .ok o => readFrom none o rest
    | none =>
      if argument = "--" then .ok (.run { o with inputs := o.inputs ++ rest })
      else
        match o.readArgument argument with
        | .error e => .error e
        | .ok (.stop r) => .ok r
        | .ok (.options o) => readFrom none o rest
        | .ok (.await f o) => readFrom (some f) o rest

end Options

/-- What arguments ask for. -/
def Request.ofArguments (arguments : List String) : Except OptionFault Request :=
  Options.readFrom none .empty arguments

end Reckoner

import Reckoner.Token.Basic
import Reckoner.Parsing.Parser
import Reckoner.Statement.Basic
import Reckoner.Value
import Reckoner.Text.Utf8
import Reckoner.Measure.Table
import Reckoner.Currency.RateSet

/-!
# Failures

Every reason for which an operation is refused, its wording, its kind, and the number of the kind.
-/

namespace Reckoner

/-- Why a name cannot be bound. -/
inductive NameFault where
  | notIdentifier (name : String)
  | reserved (name : String)
deriving DecidableEq, Repr

def NameFault.message : NameFault → String
  | notIdentifier name => "'" ++ name ++ "' is not an identifier"
  | reserved name => "'" ++ name ++ "' is reserved"

/-- Why quantities do not go together. -/
inductive UnitClash where
  /-- A sum or difference of two quantities. -/
  | combine (verb left right : String)
  | multiply (left right : String)
  | divideNumber (right : String)
  | remainderOfNumber (right : String)
  | power
  /-- Kinds that cannot be converted into each other. -/
  | convert (source target : String)
  /-- Units of different categories. -/
  | categories (source sourceCategory target targetCategory : String)
  | percentage (value : Value)
  | argument (f : Function) (value : Value)
deriving DecidableEq, Repr

def UnitClash.message : UnitClash → String
  | combine verb left right => "cannot " ++ verb ++ " " ++ left ++ " and " ++ right
  | multiply left right => "cannot multiply " ++ left ++ " by " ++ right
  | divideNumber right => "cannot divide a number by " ++ right
  | remainderOfNumber right => "cannot take a number modulo " ++ right
  | power => "exponentiation needs plain numbers"
  | convert source target => "cannot convert " ++ source ++ " to " ++ target
  | categories source sourceCategory target targetCategory =>
    "cannot convert " ++ source ++ " (" ++ sourceCategory ++ ") to " ++ target ++ " (" ++
      targetCategory ++ ")"
  | percentage value => "a percentage needs a plain number, got " ++ value.text
  | argument f value => f.text ++ " needs a plain number, got " ++ value.text

/-- Why a variable of the settings is refused. -/
inductive VariableFault where
  | invalidName (fault : NameFault)
  | notFinite
  | unknownUnit (word : String)
deriving DecidableEq, Repr

def VariableFault.message : VariableFault → String
  | invalidName fault => "Invalid name: " ++ fault.message
  | notFinite => "value is not finite"
  | unknownUnit word => "unknown unit '" ++ word ++ "'"

/-- The greatest length of a path, in bytes. -/
def greatestPath : Nat := 4096

/-- The greatest size of a settings file, in bytes. -/
def greatestFile : Nat := 1024 * 1024

/-- Why settings are refused. -/
inductive SettingsFault where
  /-- The file cannot be read. -/
  | unreadable
  /-- The file is not JSON of the right form. -/
  | malformed
  | rates (fault : RateFault)
  | pathTooLong (length : Nat)
  | fileTooLarge (size : Nat)
  | noDirectory
  | badVariable (name : String) (fault : VariableFault)
  | badUnit (category name : String) (fault : MeasureFault)
  | unknownLocale (code : String)
deriving DecidableEq, Repr

def SettingsFault.message : SettingsFault → String
  | unreadable => "cannot access config file"
  | malformed => "malformed config"
  | rates fault => "invalid currency rates: " ++ fault.message
  | pathTooLong length =>
    "config path is " ++ toString length ++ " bytes long (limit " ++ toString greatestPath ++ ")"
  | fileTooLarge size =>
    "config file is " ++ toString size ++ " bytes (limit " ++ toString greatestFile ++ ")"
  | noDirectory => "no configuration directory available"
  | badVariable name fault => "variable '" ++ name ++ "': " ++ fault.message
  | badUnit category name fault =>
    "unit '" ++ name ++ "' (" ++ category ++ "): Invalid input: " ++ fault.message
  | unknownLocale code => "unknown locale '" ++ code ++ "'"

/-- Why no rates could be fetched. -/
inductive FetchFault where
  /-- The last attempt is too recent; seconds to wait. -/
  | rateLimited (wait : Nat)
  | allSourcesFailed (reasons : String)
deriving DecidableEq, Repr

def FetchFault.message : FetchFault → String
  | rateLimited wait => "rates were fetched recently; retry in " ++ toString wait ++ "s"
  | allSourcesFailed reasons => "every rate source failed: " ++ reasons

/-- What is wrong with an input before anything is read from it. -/
inductive InputFault where
  | empty
  | deepNesting
  | manyOperators
  | notUtf8 (fault : Utf8.Fault)
  /-- An argument that is not UTF-8. -/
  | textNotUtf8 (fault : Utf8.Fault)
  /-- A host holds no session. -/
  | noSession
  /-- A host passes no text. -/
  | noText
  | noSettingsFile (path : String)
  /-- Standard input that cannot be read. -/
  | unreadable (reason : String)
deriving DecidableEq, Repr

/-- The deepest nesting of parentheses. -/
def greatestNesting : Nat := 64

/-- The most operators in one input. -/
def greatestOperators : Nat := 256

/-- The longest input, in bytes. -/
def greatestInput : Nat := 100000

def InputFault.message : InputFault → String
  | empty => "empty input"
  | deepNesting => "parentheses nested deeper than " ++ toString greatestNesting
  | manyOperators => "more than " ++ toString greatestOperators ++ " operators"
  | notUtf8 fault => "input is not UTF-8: " ++ fault.message
  | textNotUtf8 fault => "string is not UTF-8: " ++ fault.message
  | noSession => "null context"
  | noText => "null string"
  | noSettingsFile path => "config file " ++ path ++ " does not exist"
  | unreadable reason => "stdin: " ++ reason

/-- Why an input cannot be read. -/
inductive ReadingFault where
  | token (fault : TokenFault)
  | grammar (fault : ParseFault)
  | unknownUnit (word : String)
  /-- An input that no topic takes. -/
  | uninterpretable (text : String)
deriving DecidableEq, Repr

def ReadingFault.message : ReadingFault → String
  | token fault => fault.message
  | grammar fault => fault.message
  | unknownUnit word => "unknown unit '" ++ word ++ "'"
  | uninterpretable text => "cannot interpret '" ++ text ++ "'"

/-- Why an operation is refused. -/
inductive Failure where
  | input (fault : InputFault)
  | inputTooLarge (length : Nat)
  | reading (fault : ReadingFault)
  | unknownVariable (name : String)
  /-- Earlier results are recalled and there are none. -/
  | emptyHistory (r : Recall)
  | divisionByZero
  | clash (c : UnitClash)
  | invalidName (fault : NameFault)
  | missingRate (code : String)
  | notFinite
  | settings (fault : SettingsFault)
  | fetch (fault : FetchFault)
  | unknownLocale (code : String)
  /-- A unit that cannot be added. -/
  | measure (fault : MeasureFault)
deriving DecidableEq, Repr

namespace Failure

def message : Failure → String
  | input fault => "Invalid input: " ++ fault.message
  | inputTooLarge length =>
    "Input too large: " ++ toString length ++ " bytes exceeds the limit of " ++
      toString greatestInput ++ " bytes"
  | reading fault => "Parse error: " ++ fault.message
  | unknownVariable name => "Unknown variable: " ++ name
  | emptyHistory r =>
    "Unknown history reference: ''" ++ r.text ++
      "' with empty history' needs at least one previous result"
  | divisionByZero => "Division by zero"
  | clash c => "Incompatible units: " ++ c.message
  | invalidName fault => "Invalid name: " ++ fault.message
  | missingRate code => "No exchange rate available for " ++ code
  | notFinite => "Result is not a finite number"
  | settings fault => "Config error: " ++ fault.message
  | fetch fault => "Network error: " ++ fault.message
  | unknownLocale code => "Locale not found: " ++ code
  | measure fault => "Invalid input: " ++ fault.message

inductive Kind where
  | invalidInput
  | inputTooLarge
  | parseError
  | unknownVariable
  | unknownHistoryReference
  | divisionByZero
  | incompatibleUnits
  | invalidName
  | configError
  | networkError
  | localeNotFound
  | missingRate
  | nonFiniteResult
deriving DecidableEq, Repr

/-- The number of a kind; none is zero. -/
def Kind.code : Kind → Nat
  | invalidInput => 1
  | inputTooLarge => 2
  | parseError => 3
  | unknownVariable => 4
  | unknownHistoryReference => 5
  | divisionByZero => 6
  | incompatibleUnits => 7
  | invalidName => 8
  | configError => 9
  | networkError => 10
  | localeNotFound => 11
  | missingRate => 12
  | nonFiniteResult => 13

def kind : Failure → Kind
  | input _ | measure _ => .invalidInput
  | inputTooLarge _ => .inputTooLarge
  | reading _ => .parseError
  | unknownVariable _ => .unknownVariable
  | emptyHistory _ => .unknownHistoryReference
  | divisionByZero => .divisionByZero
  | clash _ => .incompatibleUnits
  | invalidName _ => .invalidName
  | missingRate _ => .missingRate
  | notFinite => .nonFiniteResult
  | settings _ => .configError
  | fetch _ => .networkError
  | unknownLocale _ => .localeNotFound

def code (f : Failure) : Nat := f.kind.code

/-- A unit word that means nothing. -/
def unknownUnit (word : String) : Failure := .reading (.unknownUnit word)

end Failure

abbrev Outcome (α : Type) := Except Failure α

end Reckoner

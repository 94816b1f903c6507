import Reckoner.Failure
import Reckoner.Token.Scan
import Reckoner.Statement.Grammar
import Reckoner.Spelling.Normal

/-!
# Reading inputs

An input is checked for its size, brought into its normal form, cut into tokens and parsed. Nesting
and operators are bounded before the parser runs.
-/

namespace Reckoner

/-- Checks nesting and the number of operators, where `depth` parentheses are open and `operators`
operators were passed. An equals sign is no operator here. -/
def checkNestingFrom (depth operators : Nat) : List Token → Except InputFault Unit
  | [] => .ok ()
  | .openParen :: rest =>
    if depth < greatestNesting then checkNestingFrom (depth + 1) operators rest
    else .error .deepNesting
  | .closeParen :: rest => checkNestingFrom (depth - 1) operators rest
  | .operator .assign :: rest => checkNestingFrom depth operators rest
  | .operator _ :: rest =>
    if operators < greatestOperators then checkNestingFrom depth (operators + 1) rest
    else .error .manyOperators
  | _ :: rest => checkNestingFrom depth operators rest

def checkNesting (ts : List Token) : Except InputFault Unit := checkNestingFrom 0 0 ts

/-- Checks that an input is neither too long nor blank. -/
def checkInput (text : String) : Outcome Unit :=
  if greatestInput < text.utf8ByteSize then .error (.inputTooLarge text.utf8ByteSize)
  else if Text.trim text.toList = [] then .error (.input .empty)
  else .ok ()

/-- What an input is read as: a statement, or why it is none. -/
abbrev Reading := Except ReadingFault Statement

namespace Reading

/-- The reading of tokens. Tokens beyond the bounds are refused outright. -/
def ofTokens (l : Locale) (ts : List Token) : Outcome Reading :=
  match checkNesting ts with
  | .error e => .error (.input e)
  | .ok () => .ok ((Statement.parse l ts).mapError .grammar)

/-- The reading of a text in normal form. -/
def ofNormal (l : Locale) (cs : List Char) : Outcome Reading :=
  match Token.significant cs with
  | .error e => .ok (.error (.token e))
  | .ok ts => ofTokens l ts

/-- The reading of an input. -/
def ofInput (l : Locale) (text : String) : Outcome Reading :=
  match checkInput text with
  | .error e => .error e
  | .ok () => ofNormal l (Spelling.normalize l text.toList)

end Reading

/-- The statement that an input writes. -/
def Statement.ofInput (l : Locale) (text : String) : Outcome Statement :=
  (Reading.ofInput l text).bind (·.mapError .reading)

end Reckoner

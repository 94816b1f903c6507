import Reckoner.Spelling.Words
import Reckoner.Spelling.Numbers
import Reckoner.Spelling.Money

/-!
# The normal form of an input

Free-form input becomes a text in the vocabulary of the tokens: comments go, then words, signs,
separators and symbols are replaced, one kind after the other. Separators come before currency
symbols, so that the amounts next to symbols are plain numbers.
-/

namespace Reckoner.Spelling

/-- The part of a line before its first `//`, if it has one; `done` holds what was passed, last
first. -/
def beforeSlashes? : List Char → List Char → Option (List Char)
  | '/' :: '/' :: _, done => some done.reverse
  | c :: cs, done => beforeSlashes? cs (c :: done)
  | [], _ => none

/-- A line without its comment. A line with `//` is cut there, any other line at its first `#`. -/
def cutComment (line : List Char) : List Char :=
  match beforeSlashes? line [] with
  | some before => before
  | none => line.takeWhile (· != '#')

def removeComments (cs : List Char) : List Char :=
  (['\n'] : List Char).intercalate ((Text.lines cs).map cutComment)

/-- The plain form of a mathematical sign. -/
def plainSign (c : Char) : Char :=
  if c = '×' then '*' else if c = '÷' then '/' else if c = '−' then '-' else c

/-- The normal form of an input in a locale. -/
def normalize (l : Locale) (cs : List Char) : List Char :=
  let cs := (Text.trim (removeComments cs)).map plainSign
  let cs := replaceDegrees (replaceOperatorWords (replaceNumberWords cs))
  Text.trim (replaceSymbols (normalizeNumbers l (removeUnderscores cs)))

end Reckoner.Spelling

import Reckoner.Text.CharClass

/-!
# Trimming and lines

Texts are lists of characters while they are being read.
-/

namespace Reckoner.Text

def trimLeft (cs : List Char) : List Char := cs.dropWhile isBlank

def trimRight (cs : List Char) : List Char := (cs.reverse.dropWhile isBlank).reverse

/-- The text without leading and trailing blanks. -/
def trim (cs : List Char) : List Char := trimRight (trimLeft cs)

def trimmed (s : String) : String := String.ofList (trim s.toList)

/-- The pieces between the characters `sep`; there is always at least one. `piece` holds what was
read of the current piece, backwards, and `done` the pieces before it, last first. -/
def splitGo (sep : Char) : List Char → List Char → List (List Char) → List (List Char)
  | [], piece, done => (piece.reverse :: done).reverse
  | c :: cs, piece, done =>
    if c = sep then splitGo sep cs [] (piece.reverse :: done) else splitGo sep cs (c :: piece) done

/-- The pieces of the text between the characters `sep`. -/
def split (sep : Char) (cs : List Char) : List (List Char) := splitGo sep cs [] []

/-- A line end may be written with a carriage return before the line feed. -/
def dropReturn (line : List Char) : List Char :=
  if line.getLast? = some '\r' then line.dropLast else line

/-- The lines of a text. A line ends with a line feed, and a carriage return right before it belongs
to the end; what follows the last line feed is a line unless it is empty. -/
def lines (cs : List Char) : List (List Char) :=
  let pieces := split '\n' cs
  let ended := pieces.dropLast.map dropReturn
  match pieces.getLast? with
  | none | some [] => ended
  | some final => ended ++ [final]

end Reckoner.Text

import Reckoner.Text.Table

/-!
# Character classes

The classes that the calculator's texts are read by: blanks, letters, digits and word characters, in
the sense of Unicode. Names and letter case follow Unicode 17; the digits and words of free-form text
follow Unicode 16, so what Unicode 17 added stands between words. ASCII characters are answered by
comparison, the others by the range tables.
-/

namespace Reckoner.Text

/-- Binary search for `n` among ascending ranges between the indices `lo` and `hi`. -/
def searchRanges (t : Array (Nat × Nat)) (n : Nat) : Nat → Nat → Nat → Bool
  | 0, _, _ => false
  | fuel + 1, lo, hi =>
    if hi ≤ lo then false
    else
      let mid := (lo + hi) / 2
      match t[mid]? with
      | none => false
      | some (first, last) =>
        if n < first then searchRanges t n fuel lo mid
        else if last < n then searchRanges t n fuel (mid + 1) hi
        else true

/-- Whether the character lies in one of the ranges of `t`. -/
def inRanges (t : Array (Nat × Nat)) (c : Char) : Bool :=
  searchRanges t c.toNat t.size 0 t.size

/-- White space: the Unicode property `White_Space`. -/
def isBlank (c : Char) : Bool :=
  let n := c.toNat
  (9 ≤ n && n ≤ 13) || n == 0x20 || n == 0x85 || n == 0xA0 || n == 0x1680 ||
    (0x2000 ≤ n && n ≤ 0x200A) || n == 0x2028 || n == 0x2029 || n == 0x202F || n == 0x205F ||
    n == 0x3000

/-- A letter: the Unicode property `Alphabetic`. -/
def isLetter (c : Char) : Bool :=
  if c.toNat < 0x80 then c.isAlpha else inRanges Table.alphabetic c

/-- A letter, mark or digit that Unicode 16 does not have. -/
def isNewest (c : Char) : Bool := inRanges Table.newest c

/-- A decimal digit of any script: the general category `Nd` of Unicode 16. -/
def isDecimal (c : Char) : Bool :=
  if c.toNat < 0x80 then c.isDigit else inRanges Table.decimalDigit c && !isNewest c

/-- A character of any numeric category: `Nd`, `Nl` or `No`. -/
def isNumeric (c : Char) : Bool :=
  if c.toNat < 0x80 then c.isDigit
  else inRanges Table.decimalDigit c || inRanges Table.otherNumeric c

/-- A character that can start a name. -/
def isNameStart (c : Char) : Bool := isLetter c || c == '_'

/-- A character that can continue a name. -/
def isNamePart (c : Char) : Bool := isLetter c || isNumeric c || c == '_'

/-- A character that belongs to a word in Unicode 16, so that no word boundary lies between two of
them: letters, marks, decimal digits, connectors and join controls. -/
def isWordChar (c : Char) : Bool :=
  if c.toNat < 0x80 then c.isAlphanum || c == '_'
  else (isLetter c || isDecimal c || inRanges Table.wordJoiner c) && !isNewest c

/-- A character with an upper-case or lower-case form. -/
def isCased (c : Char) : Bool := c.isAlpha || inRanges Table.cased c

/-- A character that casing rules look through. -/
def isCaseIgnorable (c : Char) : Bool := inRanges Table.caseIgnorable c

end Reckoner.Text

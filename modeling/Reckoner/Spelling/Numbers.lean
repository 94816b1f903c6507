import Reckoner.Spelling.Sweep
import Reckoner.Locale

/-!
# Separators inside numbers

Numbers are brought to one form: a point before the fraction and nothing between the groups of the
integer part. A text that does not look like a number of the locale is kept.
-/

namespace Reckoner.Spelling

open Text (isDecimal)

/-- The runs of digits behind underscores at the start of a text. -/
def underscoreGroups (cs : List Char) : List (List Char) :=
  match cs with
  | '_' :: rest =>
    if rest.takeWhile isDecimal = [] then []
    else rest.takeWhile isDecimal :: underscoreGroups (rest.dropWhile isDecimal)
  | _ => []
termination_by cs.length
decreasing_by
  have := (List.dropWhile_suffix isDecimal (l := rest)).length_le
  simp only [List.length_cons]; omega

/-- Underscores between digits are left out. -/
def underscored : Rule := fun before c cs =>
  if opensWord before && isDecimal c then
    let groups := underscoreGroups (cs.dropWhile isDecimal)
    if groups = [] then none
    else
      let run := cs.takeWhile isDecimal
      some ⟨run.length + groups.length + groups.flatten.length, c :: (run ++ groups.flatten)⟩
  else none

/-- A blank that can stand between groups of digits. -/
def isGroupSpace (c : Char) : Bool := c == ' ' || c.toNat == 0xA0 || c.toNat == 0x202F

/-- How a number may end behind a group of digits: with a comma and digits, or just so; a word
boundary comes next. -/
def spacedEnd? (cs : List Char) : Option Nat :=
  match cs with
  | ',' :: rest =>
    let run := rest.takeWhile isDecimal
    if run ≠ [] ∧ closesWord (rest.dropWhile isDecimal) then some (run.length + 1) else some 0
  | _ => if closesWord cs then some 0 else none

/-- The length of what follows the first digits of a number in groups of three behind spaces: as many
groups as lead to an end. -/
def spacedGroups? : List Char → Option Nat
  | s :: x :: y :: z :: rest =>
    if isGroupSpace s && isDecimal x && isDecimal y && isDecimal z then
      match spacedGroups? rest with
      | some n => some (n + 4)
      | none => (spacedEnd? rest).map (· + 4)
    else none
  | _ => none

/-- The spaces of a number in groups are left out. -/
def spaced : Rule := fun before c cs =>
  if opensWord before && isDecimal c then
    let run := cs.takeWhile isDecimal
    if run.length ≤ 2 then
      (spacedGroups? (cs.dropWhile isDecimal)).map fun n =>
        ⟨run.length + n, (c :: cs.take (run.length + n)).filter fun x => !Text.isBlank x⟩
    else none
  else none

/-- Whether a text is digits, then groups of three digits behind `sep`, at least `least` of them, and
nothing else or the mark `mark` with digits. -/
def groupsThen (sep mark : Char) (least : Nat) : List Char → Bool
  | [] => least == 0
  | c :: cs =>
    if c = sep then
      match cs with
      | x :: y :: z :: rest =>
        isDecimal x && isDecimal y && isDecimal z && groupsThen sep mark (least - 1) rest
      | _ => false
    else c == mark && least == 0 && !cs.isEmpty && cs.all isDecimal

/-- Whether a text is a number in groups of three behind `sep`, at least two groups, with an optional
fraction behind `mark`. -/
def isGrouped (sep mark : Char) (cs : List Char) : Bool :=
  let head := cs.takeWhile isDecimal
  1 ≤ head.length && head.length ≤ 3 && groupsThen sep mark 1 (cs.dropWhile isDecimal)

/-- Whether a text is digits, a comma and digits. -/
def isCommaDecimal (cs : List Char) : Bool :=
  !(cs.takeWhile isDecimal).isEmpty &&
    match cs.dropWhile isDecimal with
    | ',' :: rest => !rest.isEmpty && rest.all isDecimal
    | _ => false

/-- A number of the locale with a point before its fraction and without group separators; a text that
is none is kept. -/
def plainNumber (l : Locale) (cs : List Char) : List Char :=
  let pointed (cs : List Char) := cs.map fun c => if c = ',' then '.' else c
  if l.decimalSeparator = '.' then
    if isGrouped ',' '.' cs then cs.filter (· != ',') else cs
  else if l.groupSeparator = '.' ∧ isGrouped '.' ',' cs then pointed (cs.filter (· != '.'))
  else if isCommaDecimal cs then pointed cs
  else cs

def isNumberChar (c : Char) : Bool := isDecimal c || c == '.' || c == ','

/-- A stretch of digits, points and commas, from a digit to a digit, becomes a plain number. -/
def punctuated (l : Locale) : Rule := fun _ c cs =>
  if isDecimal c then
    let run := ((cs.takeWhile isNumberChar).reverse.dropWhile fun x => !isDecimal x).reverse
    if run = [] then none else some ⟨run.length, plainNumber l (c :: run)⟩
  else none

def removeUnderscores (cs : List Char) : List Char := sweep underscored cs

/-- Brings the numbers of a text to the plain form. -/
def normalizeNumbers (l : Locale) (cs : List Char) : List Char :=
  sweep (punctuated l) (if Text.isBlank l.groupSeparator then sweep spaced cs else cs)

end Reckoner.Spelling

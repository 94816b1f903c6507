import Reckoner.Spelling.Sweep
import Reckoner.Currency.Code

/-!
# Currency symbols

A symbol next to an amount becomes its code behind the amount; any other symbol becomes its code.
-/

namespace Reckoner.Spelling

open Text (isDecimal)

/-- A fraction at the start of a text: a point and digits. -/
def fractionAt (cs : List Char) : List Char :=
  match cs with
  | '.' :: rest => if rest.takeWhile isDecimal = [] then [] else '.' :: rest.takeWhile isDecimal
  | _ => []

/-- The amount at the start of a text: digits, and a fraction if one follows. -/
def amountAt (cs : List Char) : List Char :=
  let whole := cs.takeWhile isDecimal
  if whole = [] then [] else whole ++ fractionAt (cs.dropWhile isDecimal)

/-- The scale words that belong to an amount behind a symbol. -/
def amountScales : List String := ["k", "M", "thousand", "million", "billion", "trillion"]

/-- The blanks and the scale word at the start of a text, if it has one. -/
def scaleAt (cs : List Char) : List Char :=
  let blanks := cs.takeWhile Text.isBlank
  let behind := cs.dropWhile Text.isBlank
  match amountScales.find? fun w =>
      w.toList.isPrefixOf behind && closesWord (behind.drop w.length) with
  | some w => blanks ++ w.toList
  | none => []

/-- A symbol before an amount. -/
def symbolBefore : Rule := fun _ c cs =>
  match Currency.ofSymbol? c with
  | none => none
  | some code =>
    let blanks := cs.takeWhile Text.isBlank
    let behind := cs.dropWhile Text.isBlank
    let amount := amountAt behind
    if amount = [] then none
    else
      let scaled := amount ++ scaleAt (behind.drop amount.length)
      some ⟨blanks.length + scaled.length, scaled ++ ' ' :: code.toList⟩

/-- A symbol behind an amount. -/
def symbolAfter : Rule := fun _ c cs =>
  if isDecimal c then
    let amount := amountAt (c :: cs)
    let behind := cs.drop (amount.length - 1)
    match behind.dropWhile Text.isBlank with
    | s :: _ =>
      match Currency.ofSymbol? s with
      | some code =>
        some ⟨amount.length + (behind.takeWhile Text.isBlank).length, amount ++ ' ' :: code.toList⟩
      -- where the first digit starts no amount with a symbol, no later one of the run does
      | none => some ⟨(cs.takeWhile isDecimal).length, c :: cs.takeWhile isDecimal⟩
    | [] => some ⟨(cs.takeWhile isDecimal).length, c :: cs.takeWhile isDecimal⟩
  else none

/-- Any other symbol. -/
def symbolAlone : Rule := fun _ c _ =>
  (Currency.ofSymbol? c).map fun code => ⟨0, ' ' :: (code.toList ++ [' '])⟩

def replaceSymbols (cs : List Char) : List Char :=
  sweep symbolAlone (sweep symbolAfter (sweep symbolBefore cs))

end Reckoner.Spelling

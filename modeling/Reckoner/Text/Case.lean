import Reckoner.Text.CharClass

/-!
# Letter case

Full lower-casing of texts, and comparison that ignores the case of ASCII letters only.
-/

namespace Reckoner.Text

/-- The code point that the lower-case table gives for `n`, if a row covers it. -/
def searchLower (t : Array (Nat × Nat × Nat × Nat)) (n : Nat) : Nat → Nat → Nat → Option Nat
  | 0, _, _ => none
  | fuel + 1, lo, hi =>
    if hi ≤ lo then none
    else
      let mid := (lo + hi) / 2
      match t[mid]? with
      | none => none
      | some (first, last, step, image) =>
        if n < first then searchLower t n fuel lo mid
        else if last < n then searchLower t n fuel (mid + 1) hi
        else if (n - first) % step = 0 then some (image + (n - first)) else none

/-- The lower-case form of one character on its own. -/
def lowerChar (c : Char) : List Char :=
  if c.toNat < 0x80 then [c.toLower]
  -- the capital I with a dot is the one character with a form of two characters
  else if c.toNat = 0x130 then ['i', Char.ofNat 0x307]
  else
    match searchLower Table.lowerCase c.toNat Table.lowerCase.size 0 Table.lowerCase.size with
    | some n => [Char.ofNat n]
    | none => [c]

/-- Whether a cased character comes first in the text once case-ignorable ones are skipped. -/
def startsCased (cs : List Char) : Bool :=
  match cs.dropWhile isCaseIgnorable with
  | [] => false
  | c :: _ => isCased c

/-- Lower-casing with `before` the characters already passed, last first, and `done` their image,
backwards. -/
def lowerGo : List Char → List Char → List Char → List Char
  | [], _, done => done.reverse
  | c :: cs, before, done =>
    let image :=
      -- a capital sigma at the end of a word becomes the final sigma
      if c.toNat = 0x3A3 then
        if startsCased before && !startsCased cs then [Char.ofNat 0x3C2] else [Char.ofNat 0x3C3]
      else lowerChar c
    lowerGo cs (c :: before) (image.reverse ++ done)

def lowercase (s : String) : String := String.ofList (lowerGo s.toList [] [])

/-- The string with ASCII letters in upper case. -/
def asciiUpper (s : String) : String := String.ofList (s.toList.map Char.toUpper)

/-- The string with ASCII letters in lower case. -/
def asciiLower (s : String) : String := String.ofList (s.toList.map Char.toLower)

/-- Equality up to the case of ASCII letters. -/
def sameIgnoringCase (s t : String) : Bool := asciiLower s == asciiLower t

end Reckoner.Text

import Reckoner.Json.Basic
import Reckoner.Decimal.Read

/-!
# Reading JSON texts

A recursive descent over the characters. Its fuel is the length of the text: every call but the first
follows a character that was consumed.
-/

namespace Reckoner.Json

/-- The four blanks that may stand between the parts of a JSON text. -/
def isGap (c : Char) : Bool := c == ' ' || c == '\n' || c == '\t' || c == '\r'

/-- The text behind leading blanks. -/
def skip (cs : List Char) : List Char := cs.dropWhile isGap

def isHex (c : Char) : Bool := c.isDigit || ('a' ≤ c && c ≤ 'f') || ('A' ≤ c && c ≤ 'F')

def code? (a b c d : Char) : Option Nat :=
  if isHex a && isHex b && isHex c && isHex d then some (Decimal.ofDigits 16 [a, b, c, d]) else none

/-- The character of an escape with one letter. -/
def escape? : Char → Option Char
  | '"' => some '"'
  | '\\' => some '\\'
  | '/' => some '/'
  | 'b' => some '\x08'
  | 'f' => some '\x0c'
  | 'n' => some '\n'
  | 'r' => some '\r'
  | 't' => some '\t'
  | _ => none

/-- Whether a code is the first half of a surrogate pair. -/
def isHigh (n : Nat) : Bool := 0xD800 ≤ n && n ≤ 0xDBFF

/-- Whether a code is the second half of a surrogate pair. -/
def isLow (n : Nat) : Bool := 0xDC00 ≤ n && n ≤ 0xDFFF

/-- The code of an escape `\uXXXX` at the start of the text. -/
def escapedCode? : List Char → Option Nat
  | '\\' :: 'u' :: a :: b :: c :: d :: _ => code? a b c d
  | _ => none

/-- The rest of a string behind its opening quote. `done` holds its characters, last first; `whole`
is false once half of a surrogate pair stood alone. -/
def readString (done : List Char) (whole : Bool) : List Char →
    Option (Option String × List Char)
  | [] => none
  | '"' :: rest => some (if whole then some (String.ofList done.reverse) else none, rest)
  | '\\' :: 'u' :: a :: b :: c :: d :: rest =>
    match code? a b c d with
    | none => none
    | some n =>
      if isHigh n then
        match escapedCode? rest with
        | some m =>
          -- the two halves of one character
          if isLow m then
            readString (Char.ofNat (0x10000 + (n - 0xD800) * 0x400 + (m - 0xDC00)) :: done) whole
              (rest.drop 6)
          else readString done false rest
        | none => readString done false rest
      else if isLow n then readString done false rest
      else readString (Char.ofNat n :: done) whole rest
  | '\\' :: e :: rest =>
    match escape? e with
    | none => none
    | some c => readString (c :: done) whole rest
  | c :: rest => if c.toNat < 0x20 ∨ c = '\\' then none else readString (c :: done) whole rest
termination_by cs => cs.length
decreasing_by all_goals simp_wf; try omega

/-- The digits at the start of the text and what follows; there must be one. -/
def readDigits (cs : List Char) : Option (List Char × List Char) :=
  match cs.takeWhile Char.isDigit with
  | [] => none
  | ds => some (ds, cs.dropWhile Char.isDigit)

/-- Digits before the point: a zero alone, or digits that start with another one. -/
def readWhole : List Char → Option (List Char × List Char)
  | '0' :: rest => some (['0'], rest)
  | cs => readDigits cs

/-- A point with digits, or nothing. -/
def readFraction : List Char → Option (List Char × List Char)
  | '.' :: rest => readDigits rest
  | cs => some ([], cs)

/-- The digits of an exponent behind its sign. -/
def readPower (negative : Bool) (cs : List Char) : Option (Option Int × List Char) :=
  (readDigits cs).map fun (ds, rest) =>
    let n : Int := Decimal.ofDigits 10 ds
    (some (if negative then -n else n), rest)

/-- An exponent, or nothing. -/
def readExponent : List Char → Option (Option Int × List Char)
  | c :: rest =>
    if c = 'e' ∨ c = 'E' then
      match rest with
      | '-' :: rest => readPower true rest
      | '+' :: rest => readPower false rest
      | _ => readPower false rest
    else some (none, c :: rest)
  | [] => some (none, [])

/-- A numeral behind its sign. -/
def readNumeral (negative : Bool) (cs : List Char) : Option (Json × List Char) := do
  let (whole, cs) ← readWhole cs
  let (fraction, cs) ← readFraction cs
  let (exponent, cs) ← readExponent cs
  some (.number ⟨negative, ⟨whole, fraction, exponent⟩⟩, cs)

mutual

/-- One value at the start of the text and what follows it. -/
def readValue : Nat → List Char → Option (Json × List Char)
  | 0, _ => none
  | fuel + 1, cs =>
    match skip cs with
    | 'n' :: 'u' :: 'l' :: 'l' :: rest => some (.null, rest)
    | 't' :: 'r' :: 'u' :: 'e' :: rest => some (.bool true, rest)
    | 'f' :: 'a' :: 'l' :: 's' :: 'e' :: rest => some (.bool false, rest)
    | '"' :: rest => (readString [] true rest).map fun (s, rest) => (.text s, rest)
    | '[' :: rest =>
      match skip rest with
      | ']' :: rest => some (.array [], rest)
      | rest => readElements fuel [] rest
    | '\x7b' :: rest =>
      match skip rest with
      | '\x7d' :: rest => some (.object [], rest)
      | rest => readMembers fuel [] rest
    | '-' :: rest => readNumeral true rest
    | rest => readNumeral false rest

/-- The elements of an array from the next one on; `done` holds those before, last first. -/
def readElements : Nat → List Json → List Char → Option (Json × List Char)
  | 0, _, _ => none
  | fuel + 1, done, cs =>
    match readValue fuel cs with
    | none => none
    | some (v, rest) =>
      match skip rest with
      | ',' :: rest => readElements fuel (v :: done) rest
      | ']' :: rest => some (.array (v :: done).reverse, rest)
      | _ => none

/-- The members of an object from the next one on; `done` holds those before, last first. -/
def readMembers : Nat → List (Option String × Json) → List Char → Option (Json × List Char)
  | 0, _, _ => none
  | fuel + 1, done, cs =>
    match skip cs with
    | '"' :: rest =>
      match readString [] true rest with
      | none => none
      | some (key, rest) =>
        match skip rest with
        | ':' :: rest =>
          match readValue fuel rest with
          | none => none
          | some (v, rest) =>
            match skip rest with
            | ',' :: rest => readMembers fuel ((key, v) :: done) rest
            | '\x7d' :: rest => some (.object ((key, v) :: done).reverse, rest)
            | _ => none
        | _ => none
    | _ => none

end

/-- The value that a whole text writes. -/
def read? (cs : List Char) : Option Json :=
  match readValue (cs.length + 1) cs with
  | some (v, rest) => if skip rest = [] then some v else none
  | none => none

end Reckoner.Json

/-!
# UTF-8

Decoding of byte strings, with the place and the length of the first ill-formed sequence.
-/

namespace Reckoner.Utf8

/-- Why bytes are not UTF-8. `start` counts the bytes of the well-formed text before. -/
inductive Fault where
  /-- The `length` bytes from `start` on begin no character. -/
  | invalid (start length : Nat)
  /-- The text ends inside a character. -/
  | incomplete (start : Nat)
deriving DecidableEq, Repr

def Fault.message : Fault → String
  | .invalid start length =>
    "invalid utf-8 sequence of " ++ toString length ++ " bytes from index " ++ toString start
  | .incomplete start => "incomplete utf-8 byte sequence from index " ++ toString start

/-- A byte that can stand at the third or fourth place of a character. -/
def isTail (b : UInt8) : Bool := 0x80 ≤ b && b ≤ 0xBF

/-- How many bytes the character takes that starts with this byte; none if no character does. -/
def width (b : UInt8) : Option Nat :=
  if b < 0x80 then some 1
  else if 0xC2 ≤ b && b ≤ 0xDF then some 2
  else if 0xE0 ≤ b && b ≤ 0xEF then some 3
  else if 0xF0 ≤ b && b ≤ 0xF4 then some 4
  else none

/-- The bytes that can follow a leading byte: short forms, surrogates and code points past the last
one are left out. -/
def isSecond (lead b : UInt8) : Bool :=
  if lead = 0xE0 then 0xA0 ≤ b && b ≤ 0xBF
  else if lead = 0xED then 0x80 ≤ b && b ≤ 0x9F
  else if lead = 0xF0 then 0x90 ≤ b && b ≤ 0xBF
  else if lead = 0xF4 then 0x80 ≤ b && b ≤ 0x8F
  else isTail b

/-- The six payload bits of a byte after the first. -/
def payload (b : UInt8) : Nat := b.toNat % 64

/-- Decoding from byte `start` on; `done` holds the characters before, last first. -/
def decodeGo : List UInt8 → Nat → List Char → Except Fault (List Char)
  | [], _, done => .ok done.reverse
  | a :: rest, start, done =>
    match width a with
    | none => .error (.invalid start 1)
    | some 1 => decodeGo rest (start + 1) (Char.ofNat a.toNat :: done)
    | some n =>
      match rest with
      | [] => .error (.incomplete start)
      | b :: rest =>
        if !isSecond a b then .error (.invalid start 1)
        else if n = 2 then
          decodeGo rest (start + 2) (Char.ofNat (a.toNat % 32 * 64 + payload b) :: done)
        else
          match rest with
          | [] => .error (.incomplete start)
          | c :: rest =>
            if !isTail c then .error (.invalid start 2)
            else if n = 3 then
              let code := (a.toNat % 16 * 64 + payload b) * 64 + payload c
              decodeGo rest (start + 3) (Char.ofNat code :: done)
            else
              match rest with
              | [] => .error (.incomplete start)
              | d :: rest =>
                if !isTail d then .error (.invalid start 3)
                else
                  let code := ((a.toNat % 8 * 64 + payload b) * 64 + payload c) * 64 + payload d
                  decodeGo rest (start + 4) (Char.ofNat code :: done)

/-- The text that the bytes write. -/
def decode (bytes : List UInt8) : Except Fault (List Char) := decodeGo bytes 0 []

end Reckoner.Utf8

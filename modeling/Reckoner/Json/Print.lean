import Reckoner.Json.Basic

/-!
# Writing JSON texts

Two forms: on one line without blanks, and indented by two blanks with a line for each member.
-/

namespace Reckoner.Json

def hexDigit (n : Nat) : Char := if n < 10 then Char.ofNat (48 + n) else Char.ofNat (87 + n)

/-- A character inside a string: quote, backslash and control characters are escaped. -/
def escaped (c : Char) : List Char :=
  if c = '"' then ['\\', '"']
  else if c = '\\' then ['\\', '\\']
  else if c = '\x08' then ['\\', 'b']
  else if c = '\x0c' then ['\\', 'f']
  else if c = '\n' then ['\\', 'n']
  else if c = '\r' then ['\\', 'r']
  else if c = '\t' then ['\\', 't']
  else if c.toNat < 0x20 then
    ['\\', 'u', '0', '0', hexDigit (c.toNat / 16), hexDigit (c.toNat % 16)]
  else [c]

/-- A string between quotes. -/
def quoted (s : String) : List Char := '"' :: (s.toList.flatMap escaped ++ ['"'])

/-- A string that may lack content. -/
def quotedText (content : Option String) : List Char := quoted (content.getD "")

/-- Items with commas between them. -/
def separated (comma : List Char) : List (List Char) → List Char
  | [] => []
  | [x] => x
  | x :: rest => x ++ comma ++ separated comma rest

mutual

/-- The text on one line. -/
def compact : Json → List Char
  | .null => "null".toList
  | .bool true => "true".toList
  | .bool false => "false".toList
  | .number n => n.text
  | .text content => quotedText content
  | .array elements => '[' :: (separated [','] (compactElements elements) ++ [']'])
  | .object members => '\x7b' :: (separated [','] (compactMembers members) ++ ['\x7d'])

def compactElements : List Json → List (List Char)
  | [] => []
  | v :: rest => compact v :: compactElements rest

def compactMembers : List (Option String × Json) → List (List Char)
  | [] => []
  | (key, v) :: rest => (quotedText key ++ ':' :: compact v) :: compactMembers rest

end

/-- A new line at a depth. -/
def newLine (depth : Nat) : List Char := '\n' :: List.replicate (2 * depth) ' '

/-- Items on lines of their own between brackets; without items the brackets touch. -/
def block (opening closing : Char) (depth : Nat) (items : List (List Char)) : List Char :=
  if items = [] then [opening, closing]
  else
    opening :: (newLine (depth + 1) ++ separated (',' :: newLine (depth + 1)) items ++
      newLine depth ++ [closing])

mutual

/-- The indented text of a value that starts at a depth. -/
def indentedAt (depth : Nat) : Json → List Char
  | .array elements => block '[' ']' depth (indentedElements (depth + 1) elements)
  | .object members => block '\x7b' '\x7d' depth (indentedMembers (depth + 1) members)
  | .null => "null".toList
  | .bool true => "true".toList
  | .bool false => "false".toList
  | .number n => n.text
  | .text content => quotedText content

def indentedElements (depth : Nat) : List Json → List (List Char)
  | [] => []
  | v :: rest => indentedAt depth v :: indentedElements depth rest

def indentedMembers (depth : Nat) : List (Option String × Json) → List (List Char)
  | [] => []
  | (key, v) :: rest =>
    (quotedText key ++ ':' :: ' ' :: indentedAt depth v) :: indentedMembers depth rest

end

def indented (v : Json) : List Char := indentedAt 0 v

end Reckoner.Json

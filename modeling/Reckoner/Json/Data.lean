import Reckoner.Json.Number
import Reckoner.Json.Print
import Reckoner.Dictionary

/-!
# The data of a JSON text

A tree becomes data once all of it can be read: every string has content, every number is a double or
an integer of 64 bits, and the nesting is bounded. Of members with one key the last counts, and
members are in ascending order.
-/

namespace Reckoner

inductive Data where
  | null
  | bool (b : Bool)
  | number (n : Number)
  | text (s : String)
  | array (elements : List Data)
  | object (members : List (String × Data))

namespace Data

/-- How deep arrays and objects may be nested. -/
def greatestDepth : Nat := 127

mutual

/-- The data of a tree that is nested at most `depth` deep. -/
def ofJson? (depth : Nat) : Json → Option Data
  | .null => some .null
  | .bool b => some (.bool b)
  | .number n => n.number?.map .number
  | .text content => content.map .text
  | .array elements =>
    match depth with
    | 0 => none
    | depth + 1 => (ofElements? depth elements).map .array
  | .object members =>
    match depth with
    | 0 => none
    | depth + 1 =>
      (ofMembers? depth members).map fun ms => .object (Dictionary.ofList ms).entries

def ofElements? (depth : Nat) : List Json → Option (List Data)
  | [] => some []
  | v :: rest =>
    match ofJson? depth v, ofElements? depth rest with
    | some d, some ds => some (d :: ds)
    | _, _ => none

/-- The data of object members, with their keys. -/
def ofMembers? (depth : Nat) : List (Option String × Json) → Option (List (String × Data))
  | [] => some []
  | (key, v) :: rest =>
    match key, ofJson? depth v, ofMembers? depth rest with
    | some key, some d, some ds => some ((key, d) :: ds)
    | _, _, _ => none

end

mutual

def json : Data → Json
  | .null => .null
  | .bool b => .bool b
  | .number n => .number n.numeral
  | .text s => .string s
  | .array elements => .array (jsonElements elements)
  | .object members => .object (jsonMembers members)

def jsonElements : List Data → List Json
  | [] => []
  | d :: rest => json d :: jsonElements rest

def jsonMembers : List (String × Data) → List (Option String × Json)
  | [] => []
  | (key, d) :: rest => (some key, json d) :: jsonMembers rest

end

/-- The text of data on one line. -/
def written (d : Data) : String := String.ofList d.json.compact

end Data

end Reckoner

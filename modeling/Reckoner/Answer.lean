import Reckoner.Input
import Reckoner.Evaluation
import Reckoner.Topic
import Reckoner.Display

/-!
# Answering inputs

An input that is read and evaluated gives an answer, and one entry is added to the history. An input
that fails changes nothing.
-/

namespace Reckoner

structure Answer where
  value : Value
  /-- The value as the locale displays it. -/
  formatted : String
  topic : Topic
deriving DecidableEq, Repr

/-- What a topic makes of an input; nothing if it does not take it. An input that could not be read is
left to the last topic, which tells why. -/
def Topic.interpret (l : Locale) (r : Reading) (t : Topic) : Action Memory (Option Value) := do
  match r, t with
  | .ok st, _ => if t.covers (← get) st then return some (← st.run l) else return none
  | .error e, .math => throw (.reading e)
  | .error _, _ => return none

/-- Asks topics in turn. The first one that takes the input ends the search. -/
def Topic.interpretFirst (l : Locale) (text : String) (r : Reading) :
    List Topic → Action Memory (Value × Topic)
  | [] => throw (.reading (.uninterpretable text))
  | t :: ts => do
    match ← t.interpret l r with
    | some v => return (v, t)
    | none => interpretFirst l text r ts

namespace Memory

/-- Interprets an input: its value and its topic. The memory gets what the input binds. -/
def interpreting (l : Locale) (text : String) : Action Memory (Value × Topic) := do
  let r ← Reading.ofInput l text
  Topic.interpretFirst l text r Topic.all

/-- Answers an input and records it without the blanks around it. -/
def answering (d : Display) (l : Locale) (text : String) : Action Memory Answer := do
  let (v, topic) ← interpreting l text
  let formatted := d.text l v
  modify (·.record (Text.trimmed text) v formatted)
  return ⟨v, formatted, topic⟩

def interpret (m : Memory) (l : Locale) (text : String) : Outcome (Value × Topic × Memory) :=
  ((interpreting l text).outcome m).map fun ((v, topic), m) => (v, topic, m)

def evaluate (m : Memory) (d : Display) (l : Locale) (text : String) : Outcome (Answer × Memory) :=
  (answering d l text).outcome m

/-- The answer that an input would get. -/
def preview (m : Memory) (d : Display) (l : Locale) (text : String) : Outcome Answer :=
  ((answering d l text).exec m).1

end Memory

end Reckoner

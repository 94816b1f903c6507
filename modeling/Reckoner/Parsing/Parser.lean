/-!
# Parsers and their combinators

A parser reads items from a cursor on and gives a value and the cursor behind what it read, or says
what stopped it. The combinators build larger parsers from smaller ones.
-/

namespace Reckoner

/-- A place in a list of items: how many come before, and those from there on. -/
structure Cursor (ι : Type) where
  position : Nat
  rest : List ι

/-- The cursor before the item at `position`. -/
def Cursor.at {ι : Type} (items : List ι) (position : Nat) : Cursor ι :=
  ⟨position, items.drop position⟩

/-- What stopped a parser. -/
inductive ParseFault where
  /-- An item that does not fit, with its text and its place. -/
  | unexpected (found : String) (position : Nat)
  | endOfInput
  | noAlternative
  /-- A fault inside a part of the grammar that has a name. -/
  | within (name : String) (inner : ParseFault)
deriving DecidableEq, Repr

namespace ParseFault

/-- The wording of a fault, with the names of the parts around it. -/
def message : ParseFault → String
  | unexpected found position =>
    "unexpected '" ++ found ++ "' at token " ++ toString position
  | endOfInput => "unexpected end of input"
  | noAlternative => "no alternative matched"
  | within name inner => name ++ ": " ++ inner.message

/-- The innermost fault. -/
def root : ParseFault → ParseFault
  | within _ inner => inner.root
  | fault => fault

/-- The fault with every position moved up by `offset`. -/
def shift (offset : Nat) : ParseFault → ParseFault
  | unexpected found position => unexpected found (position + offset)
  | within name inner => within name (inner.shift offset)
  | fault => fault

/-- Whether `a` got at least as far as `b`. -/
def asFarAs (a b : ParseFault) : Bool :=
  match a.root, b.root with
  -- the end of the input is the furthest place of all
  | endOfInput, _ => true
  | _, endOfInput => false
  | unexpected _ m, unexpected _ n => n ≤ m
  -- a choice without alternatives got nowhere
  | _, unexpected _ n => n == 0
  | _, _ => true

end ParseFault

/-- A parser of values `α` over items `ι`. -/
abbrev Parser (ι α : Type) := Cursor ι → Except ParseFault (α × Cursor ι)

namespace Parser
variable {ι α β γ : Type}

/-- One item for which `f` gives a value. -/
def satisfy [ToString ι] (f : ι → Option α) : Parser ι α := fun c =>
  match c.rest with
  | [] => .error .endOfInput
  | x :: rest =>
    match f x with
    | some a => .ok (a, ⟨c.position + 1, rest⟩)
    | none => .error (.unexpected (toString x) c.position)

def equal [ToString ι] [DecidableEq ι] (x : ι) : Parser ι ι :=
  satisfy fun y => if y = x then some y else none

/-- Tries alternatives in order, with the furthest fault so far. -/
def choiceFrom (furthest : Option ParseFault) : List (Parser ι α) → Parser ι α
  | [], _ => .error (furthest.getD .noAlternative)
  | p :: ps, c =>
    match p c with
    | .ok r => .ok r
    | .error e =>
      let furthest :=
        match furthest with
        | none => e
        -- of faults at one place the last one stays
        | some f => if e.asFarAs f then e else f
      choiceFrom (some furthest) ps c

/-- The first alternative that succeeds, else the fault that got furthest. -/
def choice (ps : List (Parser ι α)) : Parser ι α := choiceFrom none ps

/-- Two parsers one after the other. -/
def pair (p : Parser ι α) (q : Parser ι β) : Parser ι (α × β) := fun c =>
  match p c with
  | .error e => .error e
  | .ok (a, c) =>
    match q c with
    | .error e => .error e
    | .ok (b, c) => .ok ((a, b), c)

/-- The value of a parser sent through `f`. -/
def map (f : α → β) (p : Parser ι α) : Parser ι β := fun c =>
  match p c with
  | .error e => .error e
  | .ok (a, c) => .ok (f a, c)

/-- Two parsers in a row with the second one's value. -/
def preceded (p : Parser ι α) (q : Parser ι β) : Parser ι β := map Prod.snd (pair p q)

/-- Two parsers in a row with the first one's value. -/
def terminated (p : Parser ι α) (q : Parser ι β) : Parser ι α := map Prod.fst (pair p q)

/-- Three parsers in a row with the middle one's value. -/
def delimited (l : Parser ι α) (p : Parser ι β) (r : Parser ι γ) : Parser ι β :=
  preceded l (terminated p r)

/-- Repeats `p` up to `fuel` times while it succeeds and moves on; `done` holds the values so far,
last first. -/
def manyFrom (p : Parser ι α) : Nat → List α → Cursor ι → List α × Cursor ι
  | 0, done, c => (done.reverse, c)
  | fuel + 1, done, c =>
    match p c with
    | .error _ => (done.reverse, c)
    | .ok (a, next) =>
      if next.position = c.position then (done.reverse, c)
      else manyFrom p fuel (a :: done) next

/-- Repeats `p` as long as it succeeds and moves on. -/
def many (p : Parser ι α) : Parser ι (List α) := fun c =>
  match p c with
  | .error _ => .ok ([], c)
  | .ok (a, next) =>
    if next.position = c.position then .ok ([], c)
    -- from here on each repetition is paid for by an item that the one before it read
    else .ok (manyFrom p next.rest.length [a] next)

/-- The value of `p` if it succeeds; else nothing is read. -/
def optional (p : Parser ι α) : Parser ι (Option α) := fun c =>
  match p c with
  | .error _ => .ok (none, c)
  | .ok (a, next) => .ok (some a, next)

/-- Succeeds where `p` does, and reads nothing. -/
def peek (p : Parser ι α) : Parser ι Unit := fun c =>
  match p c with
  | .error e => .error e
  | .ok _ => .ok ((), c)

/-- Succeeds where `p` fails, and reads nothing. -/
def absent [ToString ι] (p : Parser ι α) : Parser ι Unit := fun c =>
  match p c with
  | .error _ => .ok ((), c)
  | .ok _ => .error (.unexpected ((c.rest.head?.map toString).getD "") c.position)

/-- A parser that is asked only where fewer than `n` items are left. -/
def below (n : Nat) (p : (c : Cursor ι) → c.rest.length < n → Except ParseFault (α × Cursor ι)) :
    Parser ι α := fun c =>
  if h : c.rest.length < n then p c h else .error .endOfInput

/-- Names the part of the grammar that `p` reads. -/
def within (name : String) (p : Parser ι α) : Parser ι α := fun c =>
  match p c with
  | .error e => .error (.within name e)
  | .ok r => .ok r

end Parser

end Reckoner

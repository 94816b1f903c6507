import Reckoner.Parsing.Parser

/-!
# Blueprints of parsers

A blueprint is a finite nesting of the combinators over characters, as data. `Blueprint.parser` is
the parser that it describes; its values are trees.
-/

namespace Reckoner

/-- What a blueprint's parser gives. -/
inductive Harvest where
  | char (c : Char)
  | digit (n : Nat)
  | pair (first second : Harvest)
  | mapped (inner : Harvest)
  | list (items : List Harvest)
  | option (item : Option Harvest)
  | nothing

/-- A finite nesting of combinators. -/
inductive Blueprint where
  | equal (c : Char)
  /-- An ASCII digit. -/
  | digit
  | pair (p q : Blueprint)
  | preceded (p q : Blueprint)
  | terminated (p q : Blueprint)
  | delimited (l p r : Blueprint)
  | map (p : Blueprint)
  | many (p : Blueprint)
  | optional (p : Blueprint)
  | peek (p : Blueprint)
  | absent (p : Blueprint)
  | within (name : String) (p : Blueprint)
  /-- A parser that is built when it is used. -/
  | delayed (p : Blueprint)
  | choice (ps : List Blueprint)

namespace Blueprint

def digitOf (c : Char) : Option Nat := if c.isDigit then some (c.toNat - '0'.toNat) else none

mutual

/-- The parser that a blueprint describes. -/
def parser : Blueprint → Parser Char Harvest
  | .equal c => Parser.map .char (Parser.equal c)
  | .digit => Parser.map .digit (Parser.satisfy digitOf)
  | .pair p q => Parser.map (fun (a, b) => .pair a b) (Parser.pair p.parser q.parser)
  | .preceded p q => Parser.preceded p.parser q.parser
  | .terminated p q => Parser.terminated p.parser q.parser
  | .delimited l p r => Parser.delimited l.parser p.parser r.parser
  | .map p => Parser.map .mapped p.parser
  | .many p => Parser.map .list (Parser.many p.parser)
  | .optional p => Parser.map .option (Parser.optional p.parser)
  | .peek p => Parser.map (fun _ => .nothing) (Parser.peek p.parser)
  | .absent p => Parser.map (fun _ => .nothing) (Parser.absent p.parser)
  | .within name p => Parser.within name p.parser
  | .delayed p => p.parser
  | .choice ps => Parser.choice (parsers ps)

def parsers : List Blueprint → List (Parser Char Harvest)
  | [] => []
  | p :: ps => p.parser :: parsers ps

end

/-- Runs the parser of a blueprint on a text from a position on. -/
def run (p : Blueprint) (text : List Char) (position : Nat) :
    Except ParseFault (Harvest × Nat) :=
  match p.parser (Cursor.at text position) with
  | .ok (v, c) => .ok (v, c.position)
  | .error e => .error e

end Blueprint

end Reckoner

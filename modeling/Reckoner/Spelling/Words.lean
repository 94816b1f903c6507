import Reckoner.Spelling.Sweep

/-!
# Words for numbers and operators

Number words become digits and operator words become signs, in any letter case, where they stand as
whole words.
-/

namespace Reckoner.Spelling

def numberWords : List (String × Nat) :=
  [("zero", 0), ("one", 1), ("two", 2), ("three", 3), ("four", 4), ("five", 5), ("six", 6),
    ("seven", 7), ("eight", 8), ("nine", 9), ("ten", 10), ("eleven", 11), ("twelve", 12),
    ("thirteen", 13), ("fourteen", 14), ("fifteen", 15), ("sixteen", 16), ("seventeen", 17),
    ("eighteen", 18), ("nineteen", 19), ("twenty", 20), ("thirty", 30), ("forty", 40),
    ("fifty", 50), ("sixty", 60), ("seventy", 70), ("eighty", 80), ("ninety", 90)]

/-- The operator words with their signs, in the order in which they are replaced. A phrase of two
words may have any blanks between them. -/
def operatorWords : List (List String × Char) :=
  [(["multiplied", "by"], '*'), (["divided", "by"], '/'), (["times"], '*'), (["over"], '/'),
    (["plus"], '+'), (["minus"], '-'), (["mod"], '%')]

/-- Whether `c` is the letter `p` in ASCII upper or lower case. -/
def isEitherCase (p c : Char) : Bool := c.toLower == p

/-- Whether `c` is a form of the lower-case letter `p` under simple case folding. -/
def foldsTo (p c : Char) : Bool :=
  -- besides its two ASCII forms s has the long s, and k the Kelvin sign
  isEitherCase p c || (p == 's' && c.toNat == 0x17F) || (p == 'k' && c.toNat == 0x212A)

/-- What follows a word at the start of a text, letters being compared by `same`. -/
def afterWord? (same : Char → Char → Bool) : List Char → List Char → Option (List Char)
  | [], cs => some cs
  | _ :: _, [] => none
  | p :: ps, c :: cs => if same p c then afterWord? same ps cs else none

/-- The length of a phrase at the start of a text, and what follows it. -/
def afterPhrase? (same : Char → Char → Bool) :
    List String → List Char → Option (Nat × List Char)
  | [], cs => some (0, cs)
  | [w], cs => (afterWord? same w.toList cs).map fun rest => (w.length, rest)
  | w :: ws, cs =>
    match afterWord? same w.toList cs with
    | none => none
    | some rest =>
      let blanks := rest.takeWhile Text.isBlank
      if blanks.isEmpty then none
      else
        (afterPhrase? same ws (rest.dropWhile Text.isBlank)).map fun (n, rest) =>
          (w.length + blanks.length + n, rest)

/-- The length of a phrase that stands between word boundaries. -/
def phraseLength? (same : Char → Char → Bool) (ws : List String) (before : Option Char)
    (cs : List Char) : Option Nat :=
  if opensWord before then
    match afterPhrase? same ws cs with
    | some (n, rest) => if closesWord rest then some n else none
    | none => none
  else none

/-- A number word becomes its digits. -/
def numberWord : Rule := fun before c cs =>
  numberWords.findSome? fun (w, n) =>
    (phraseLength? isEitherCase [w] before (c :: cs)).map fun k =>
      ⟨k - 1, Nat.toDigits 10 n⟩

/-- An operator word becomes its sign between blanks. -/
def operatorWord (ws : List String) (sign : Char) : Rule := fun before c cs =>
  (phraseLength? foldsTo ws before (c :: cs)).map fun k => ⟨k - 1, [' ', sign, ' ']⟩

def replaceNumberWords (cs : List Char) : List Char := sweep numberWord cs

/-- Replaces operator words, one kind after the other. -/
def replaceOperatorWords (cs : List Char) : List Char :=
  operatorWords.foldl (fun cs (ws, sign) => sweep (operatorWord ws sign) cs) cs

def degreeSign : Char := '°'

/-- A degree sign with the letter of a temperature scale becomes that letter. -/
def degreeScale (scale : Char) : Rule := fun _ c cs =>
  if c = degreeSign then
    match cs.dropWhile Text.isBlank with
    | s :: rest =>
      if s = scale ∧ closesWord rest then
        some ⟨(cs.takeWhile Text.isBlank).length + 1, [' ', scale]⟩
      else none
    | [] => none
  else none

/-- Any other degree sign is the unit of angles. -/
def degreeAlone : Rule := fun _ c _ =>
  if c = degreeSign then some ⟨0, " deg".toList⟩ else none

def replaceDegrees (cs : List Char) : List Char :=
  sweep degreeAlone (sweep (degreeScale 'F') (sweep (degreeScale 'C') cs))

end Reckoner.Spelling

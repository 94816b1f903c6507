import Reckoner.Token.Basic
import Reckoner.Text.CharClass
import Reckoner.Decimal.Read

/-!
# Cutting a text into tokens

Each scanner looks at the start of a text. What it takes and what it leaves make up the text again,
and it takes at least one character (`scan?_append`, `scan?_text_ne_nil`); so the cutting ends.
-/

namespace Reckoner.Token

/-- A token at the start of a text: the characters it takes and those it leaves. -/
structure Scanned where
  token : Token
  text : List Char
  rest : List Char

/-- A run of blanks. -/
def scanBlank (cs : List Char) : Option Scanned :=
  let run := cs.takeWhile Text.isBlank
  if run = [] then none
  else some ⟨.blank (String.ofList run), run, cs.dropWhile Text.isBlank⟩

/-- An integer in another base, behind `0` and a marker letter of either case. Integers of more than
64 bits are no numbers. -/
def scanRadix (marker : Char) (base : Nat) (isDigit : Char → Bool) : List Char → Option Scanned
  | '0' :: m :: cs =>
    let run := cs.takeWhile isDigit
    if m.toLower = marker ∧ run ≠ [] ∧ Decimal.ofDigits base run < UInt64.size then
      some ⟨.number (Double.ofNat (Decimal.ofDigits base run)), '0' :: m :: run,
        cs.dropWhile isDigit⟩
    else none
  | _ => none

def isHexDigit (c : Char) : Bool :=
  c.isDigit || ('a' ≤ c && c ≤ 'f') || ('A' ≤ c && c ≤ 'F')

def isBinaryDigit (c : Char) : Bool := c == '0' || c == '1'

def isOctalDigit (c : Char) : Bool := '0' ≤ c && c ≤ '7'

/-- A point with the digits behind it; a point without digits is left alone. -/
def scanFraction : List Char → List Char × List Char
  | '.' :: cs =>
    let run := cs.takeWhile Char.isDigit
    if run = [] then ([], '.' :: cs) else ('.' :: run, cs.dropWhile Char.isDigit)
  | cs => ([], cs)

def scanSign : List Char → List Char × List Char
  | '+' :: cs => (['+'], cs)
  | '-' :: cs => (['-'], cs)
  | cs => ([], cs)

/-- The value of the digits of an exponent. Once it has reached 65536 the digits behind are skipped:
for numbers of ordinary length that is far beyond the doubles anyway. -/
def exponentValue (run : List Char) : Nat :=
  run.foldl (fun n c => if n < 65536 then n * 10 + Decimal.digitValue c else n) 0

theorem exponentValue_eq_ofDigits {run : List Char} (h : Decimal.ofDigits 10 run < 65536) :
    exponentValue run = Decimal.ofDigits 10 run := by
  rw [Decimal.ofDigits_eq_foldl] at h ⊢
  have hmono : ∀ (cs : List Char) (n : Nat),
      n ≤ cs.foldl (fun n c => n * 10 + Decimal.digitValue c) n := by
    intro cs
    induction cs with
    | nil => exact fun n => Nat.le_refl n
    | cons c cs ih => exact fun n => Nat.le_trans (by omega) (ih (n * 10 + Decimal.digitValue c))
  suffices ∀ (cs : List Char) (n : Nat),
      cs.foldl (fun n c => n * 10 + Decimal.digitValue c) n < 65536 →
      cs.foldl (fun n c => if n < 65536 then n * 10 + Decimal.digitValue c else n) n =
        cs.foldl (fun n c => n * 10 + Decimal.digitValue c) n from this run 0 h
  intro cs
  induction cs with
  | nil => exact fun _ _ => rfl
  | cons c cs ih =>
    intro n hn
    have : n < 65536 := Nat.lt_of_le_of_lt (hmono (c :: cs) n) hn
    simp only [List.foldl_cons, this, if_true]
    exact ih _ hn

/-- An exponent: its text, its value, and what follows. Without digits there is none. -/
def scanExponent : List Char → List Char × Int × List Char
  | c :: cs =>
    let (sign, behind) := scanSign cs
    let run := behind.takeWhile Char.isDigit
    if (c = 'e' ∨ c = 'E') ∧ run ≠ [] then
      let n : Int := exponentValue run
      (c :: (sign ++ run), if sign = ['-'] then -n else n, behind.dropWhile Char.isDigit)
    else ([], 0, c :: cs)
  | [] => ([], 0, [])

/-- A decimal number: `12`, `12.5`, `.5`, `1.5e3`, `2E-4`. -/
def scanDecimal (cs : List Char) : Option Scanned :=
  let whole := cs.takeWhile Char.isDigit
  let (fraction, behind) := scanFraction (cs.dropWhile Char.isDigit)
  if whole = [] ∧ fraction = [] then none
  else
    let (exponent, e, rest) := scanExponent behind
    some ⟨.number (Decimal.ofParts false whole (fraction.drop 1) e), whole ++ fraction ++ exponent,
      rest⟩

/-- An operator; `**` comes before `*`. -/
def scanOperator : List Char → Option Scanned
  | '*' :: '*' :: cs => some ⟨.operator .power, ['*', '*'], cs⟩
  | '+' :: cs => some ⟨.operator .plus, ['+'], cs⟩
  | '-' :: cs => some ⟨.operator .minus, ['-'], cs⟩
  | '*' :: cs => some ⟨.operator .times, ['*'], cs⟩
  | '/' :: cs => some ⟨.operator .divide, ['/'], cs⟩
  | '^' :: cs => some ⟨.operator .power, ['^'], cs⟩
  | '%' :: cs => some ⟨.operator .percent, ['%'], cs⟩
  | '=' :: cs => some ⟨.operator .assign, ['='], cs⟩
  | _ => none

def scanParen : List Char → Option Scanned
  | '(' :: cs => some ⟨.openParen, ['('], cs⟩
  | ')' :: cs => some ⟨.closeParen, [')'], cs⟩
  | _ => none

def ofWord (word : String) : Token :=
  match Keyword.ofText? word with
  | some k => .keyword k
  | none => .identifier word

/-- A word: a letter or underscore, then letters, digits and underscores. -/
def scanWord : List Char → Option Scanned
  | c :: cs =>
    if Text.isNameStart c then
      let run := c :: cs.takeWhile Text.isNamePart
      some ⟨ofWord (String.ofList run), run, cs.dropWhile Text.isNamePart⟩
    else none
  | [] => none

/-- The token at the start of a text. -/
def scan? (cs : List Char) : Option Scanned :=
  scanBlank cs <|> scanRadix 'x' 16 isHexDigit cs <|> scanRadix 'b' 2 isBinaryDigit cs <|>
    scanRadix 'o' 8 isOctalDigit cs <|> scanDecimal cs <|> scanOperator cs <|> scanParen cs <|>
    scanWord cs

/-- The scanner only cuts: what it takes is not empty, and joined to what it leaves it is the
text. -/
def Cuts (scan : List Char → Option Scanned) : Prop :=
  ∀ cs s, scan cs = some s → s.text ++ s.rest = cs ∧ s.text ≠ []

theorem Cuts.orElse {f g : List Char → Option Scanned} (hf : Cuts f) (hg : Cuts g) :
    Cuts fun cs => f cs <|> g cs := by
  intro cs s h
  cases hc : f cs with
  | some t => exact hf cs s (by simpa [hc] using h)
  | none => exact hg cs s (by simpa [hc] using h)

theorem cuts_scanBlank : Cuts scanBlank := by
  intro cs s h
  unfold scanBlank at h
  dsimp only at h
  split at h
  · cases h
  · next hne => cases h; exact ⟨List.takeWhile_append_dropWhile, hne⟩

theorem cuts_scanRadix (marker : Char) (base : Nat) (isDigit : Char → Bool) :
    Cuts (scanRadix marker base isDigit) := by
  intro cs s h
  unfold scanRadix at h
  split at h
  · dsimp only at h
    split at h
    · cases h; simp [List.takeWhile_append_dropWhile]
    · cases h
  · cases h

theorem scanFraction_append (cs : List Char) : (scanFraction cs).1 ++ (scanFraction cs).2 = cs := by
  unfold scanFraction
  split
  · dsimp only
    split <;> simp [List.takeWhile_append_dropWhile]
  · rfl

theorem scanSign_append (cs : List Char) : (scanSign cs).1 ++ (scanSign cs).2 = cs := by
  unfold scanSign; split <;> rfl

theorem scanExponent_append (cs : List Char) :
    (scanExponent cs).1 ++ (scanExponent cs).2.2 = cs := by
  unfold scanExponent
  split
  · next c cs =>
    dsimp only
    split
    · simp only [List.cons_append, List.append_assoc, List.takeWhile_append_dropWhile,
        scanSign_append]
    · rfl
  · rfl

theorem cuts_scanDecimal : Cuts scanDecimal := by
  intro cs s h
  unfold scanDecimal at h
  dsimp only at h
  split at h
  · cases h
  · next hne =>
    cases h
    refine ⟨?_, ?_⟩
    · simp only [List.append_assoc, scanExponent_append, scanFraction_append,
        List.takeWhile_append_dropWhile]
    · intro h0
      simp only [List.append_eq_nil_iff] at h0
      exact hne h0.1

theorem cuts_scanOperator : Cuts scanOperator := by
  intro cs s h
  unfold scanOperator at h
  split at h <;> cases h <;> simp

theorem cuts_scanParen : Cuts scanParen := by
  intro cs s h
  unfold scanParen at h
  split at h <;> cases h <;> simp

theorem cuts_scanWord : Cuts scanWord := by
  intro cs s h
  unfold scanWord at h
  split at h
  · dsimp only at h
    split at h
    · cases h; simp [List.takeWhile_append_dropWhile]
    · cases h
  · cases h

theorem cuts_scan? : Cuts scan? :=
  cuts_scanBlank.orElse <| (cuts_scanRadix _ _ _).orElse <| (cuts_scanRadix _ _ _).orElse <|
    (cuts_scanRadix _ _ _).orElse <| cuts_scanDecimal.orElse <| cuts_scanOperator.orElse <|
    cuts_scanParen.orElse cuts_scanWord

theorem scan?_append {cs : List Char} {s : Scanned} (h : scan? cs = some s) :
    s.text ++ s.rest = cs := (cuts_scan? cs s h).1

theorem scan?_text_ne_nil {cs : List Char} {s : Scanned} (h : scan? cs = some s) : s.text ≠ [] :=
  (cuts_scan? cs s h).2

theorem length_rest_lt {cs : List Char} {s : Scanned} (h : scan? cs = some s) :
    s.rest.length < cs.length := by
  have ha := congrArg List.length (scan?_append h)
  have hn := List.length_pos_iff.2 (scan?_text_ne_nil h)
  rw [List.length_append] at ha
  omega

/-- The bytes that characters take in UTF-8. -/
def byteLength (cs : List Char) : Nat := cs.foldl (fun n c => n + c.utf8Size) 0

/-- The tokens of a text that starts at a byte and a column; `done` holds the tokens before, last
first. -/
def tokensFrom (cs : List Char) (start column : Nat) (done : List Lexeme) :
    Except TokenFault (List Lexeme) :=
  match cs with
  | [] => .ok done.reverse
  | c :: rest =>
    match _h : scan? (c :: rest) with
    | some s =>
      let stop := start + byteLength s.text
      tokensFrom s.rest stop (column + s.text.length) (⟨s.token, start, stop, column⟩ :: done)
    | none =>
      .error ⟨String.ofList ((c :: rest).take 20), start, start + c.utf8Size, column⟩
termination_by cs.length
decreasing_by exact length_rest_lt _h

/-- The tokens of a text, white space included. -/
def tokens (cs : List Char) : Except TokenFault (List Lexeme) := tokensFrom cs 0 1 []

/-- The tokens of a text without white space. -/
def significant (cs : List Char) : Except TokenFault (List Token) :=
  (tokens cs).map fun ts => (ts.map (·.token)).filter fun t => !t.isBlank

end Reckoner.Token

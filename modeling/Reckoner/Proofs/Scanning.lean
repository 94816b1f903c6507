import Mathlib.Data.Bool.AllAny
import Reckoner.Proofs.Formula.Tokens
import Reckoner.Proofs.ReadBack.Grouping

/-!
# What the scanner takes

A word is spelled as the text that it is taken from (`infix_of_mem_significant`), and a name is taken
as a word (`scan?_word`). `Literal` lists the forms of a number's text with their values: these are the
texts that are taken as one number, whatever stands behind the blank that ends them
(`scan?_eq_number_iff`).
-/

namespace Reckoner

namespace Token

open Decimal (Digits fractionText mem_fractionText)

/-! ### The text of a number -/

/-- The other bases: the letter that marks them, the base, and its digits. -/
def radixes : List (Char × Nat × (Char → Bool)) :=
  [('x', 16, isHexDigit), ('b', 2, isBinaryDigit), ('o', 8, isOctalDigit)]

/-- An exponent and its value; it may be left out. -/
inductive Exponent : List Char → Int → Prop where
  | none : Exponent [] 0
  | some {mark sign run} : mark = 'e' ∨ mark = 'E' → sign ∈ [[], ['+'], ['-']] → run ≠ [] →
      Digits run → Exponent (mark :: (sign ++ run))
        (if sign = ['-'] then -(exponentValue run : Int) else exponentValue run)

/-- The text of a number, with its value. -/
inductive Literal : List Char → Float → Prop where
  | radix {marker base isDigit m run} : (marker, base, isDigit) ∈ radixes → m.toLower = marker →
      run ≠ [] → (∀ c ∈ run, isDigit c = true) → Decimal.ofDigits base run < UInt64.size →
        Literal ('0' :: m :: run) (Double.ofNat (Decimal.ofDigits base run))
  | decimal {whole fraction exponent e} : Digits whole → Digits fraction →
      (whole ≠ [] ∨ fraction ≠ []) → Exponent exponent e →
        Literal (whole ++ fractionText '.' fraction ++ exponent)
          (Decimal.ofParts false whole fraction e)

theorem drop_fractionText (fraction : List Char) : (fractionText '.' fraction).drop 1 = fraction := by
  unfold fractionText
  split
  · next hnil => rw [hnil]; rfl
  · rfl

theorem scanSign_mem (cs : List Char) : (scanSign cs).1 ∈ [[], ['+'], ['-']] := by
  unfold scanSign
  split <;> simp

theorem exponent_scanExponent (cs : List Char) :
    Exponent (scanExponent cs).1 (scanExponent cs).2.1 := by
  unfold scanExponent
  split
  · next c cs =>
    dsimp only
    split
    · next hif =>
      exact .some hif.1 (scanSign_mem cs) hif.2 fun x hx => Spelling.mem_takeWhile hx
    · exact .none
  · exact .none

theorem exists_scanFraction (cs : List Char) :
    ∃ fraction, Digits fraction ∧ (scanFraction cs).1 = fractionText '.' fraction := by
  unfold scanFraction
  split
  · next cs =>
    refine ⟨cs.takeWhile Char.isDigit, fun c hc => Spelling.mem_takeWhile hc, ?_⟩
    unfold fractionText
    dsimp only
    split <;> rfl
  · exact ⟨[], .nil, rfl⟩

/-! ### Tokens and their texts -/

/-- What the scanner takes: the text of a number, a word, blanks, a sign or a parenthesis. -/
inductive Taken : Scanned → Prop where
  | number {x text rest} : Literal text x → Taken ⟨.number x, text, rest⟩
  | word {text rest} : Taken ⟨ofWord (String.ofList text), text, rest⟩
  | blank {text rest} : Taken ⟨.blank (String.ofList text), text, rest⟩
  | operator {o text rest} : Taken ⟨.operator o, text, rest⟩
  | openParen {text rest} : Taken ⟨.openParen, text, rest⟩
  | closeParen {text rest} : Taken ⟨.closeParen, text, rest⟩

section
variable {cs : List Char} {s : Scanned}

theorem taken_scanRadix {marker : Char} {base : Nat} {isDigit : Char → Bool}
    (hradix : (marker, base, isDigit) ∈ radixes) (h : scanRadix marker base isDigit cs = some s) :
    Taken s := by
  unfold scanRadix at h
  split at h
  · next m cs =>
    dsimp only at h
    split at h
    · next hif =>
      cases h
      exact .number (.radix hradix hif.1 hif.2.1 (fun c hc => Spelling.mem_takeWhile hc) hif.2.2)
    · cases h
  · cases h

theorem taken_scanDecimal (h : scanDecimal cs = some s) : Taken s := by
  obtain ⟨fraction, hfraction, htext⟩ := exists_scanFraction (cs.dropWhile Char.isDigit)
  have hexponent := exponent_scanExponent (scanFraction (cs.dropWhile Char.isDigit)).2
  unfold scanDecimal at h
  dsimp only at h
  rw [htext, drop_fractionText] at h
  split at h
  · cases h
  · next hne =>
    cases h
    refine .number (.decimal (fun c hc => Spelling.mem_takeWhile hc) hfraction ?_ hexponent)
    by_contra hno
    rw [not_or, not_not, not_not] at hno
    exact hne ⟨hno.1, by rw [hno.2]; rfl⟩

theorem taken_scanBlank (h : scanBlank cs = some s) : Taken s := by
  unfold scanBlank at h
  dsimp only at h
  split at h
  · cases h
  · cases h
    exact .blank

theorem taken_scanOperator (h : scanOperator cs = some s) : Taken s := by
  unfold scanOperator at h
  split at h <;> cases h <;> exact .operator

theorem taken_scanParen (h : scanParen cs = some s) : Taken s := by
  unfold scanParen at h
  split at h
  · cases h
    exact .openParen
  · cases h
    exact .closeParen
  · cases h

theorem taken_scanWord (h : scanWord cs = some s) : Taken s := by
  unfold scanWord at h
  split at h
  · dsimp only at h
    split at h
    · cases h
      exact .word
    · cases h
  · cases h

theorem taken_scan? (h : scan? cs = some s) : Taken s := by
  simp only [scan?, Option.orElse_eq_orElse, Option.orElse_eq_or, Option.or_eq_some_iff] at h
  rcases h with h | ⟨-, h | ⟨-, h | ⟨-, h | ⟨-, h | ⟨-, h | ⟨-, h | ⟨-, h⟩⟩⟩⟩⟩⟩⟩
  · exact taken_scanBlank h
  · exact taken_scanRadix (by simp [radixes]) h
  · exact taken_scanRadix (by simp [radixes]) h
  · exact taken_scanRadix (by simp [radixes]) h
  · exact taken_scanDecimal h
  · exact taken_scanOperator h
  · exact taken_scanParen h
  · exact taken_scanWord h

theorem Taken.spelled (h : Taken s) {word : String} (hword : s.token.word? = some word) :
    word.toList = s.text := by
  cases h with
  | @word text rest =>
    dsimp only at hword ⊢
    unfold ofWord at hword
    split at hword
    · next k hk =>
      cases hword
      have htext := List.find?_some hk
      rw [eq_of_beq htext, String.toList_ofList]
    · cases hword
      rw [String.toList_ofList]
  | _ => cases hword

theorem Taken.toList_blank (h : Taken s) {bs : String} (hbs : s.token = .blank bs) :
    bs.toList = s.text := by
  cases h with
  | blank =>
    cases hbs
    exact String.toList_ofList
  | word =>
    dsimp only at hbs
    unfold ofWord at hbs
    split at hbs <;> cases hbs
  | _ => cases hbs

theorem Taken.literal (h : Taken s) {x : Float} (hx : s.token = .number x) : Literal s.text x := by
  cases h with
  | number h =>
    cases hx
    exact h
  | word =>
    dsimp only at hx
    unfold ofWord at hx
    split at hx <;> cases hx
  | _ => cases hx

end

theorem infix_of_mem_tokensFrom {cs : List Char} {start column : Nat} {done ls : List Lexeme}
    (h : tokensFrom cs start column done = .ok ls) :
    ∀ t ∈ ls, t ∈ done ∨ ∀ word, t.token.word? = some word → word.toList <:+: cs := by
  induction hn : cs.length using Nat.strongRecOn generalizing cs start column done with
  | ind n ih =>
    unfold tokensFrom at h
    split at h
    · cases h
      exact fun t ht => .inl (List.mem_reverse.1 ht)
    · next c rest =>
      split at h
      · next s hs =>
        have happend := scan?_append hs
        have hlt := length_rest_lt hs
        intro t ht
        rcases ih _ (hn ▸ hlt) h rfl t ht with hmem | hpart
        · rcases List.mem_cons.1 hmem with rfl | hmem
          · refine .inr fun word hword => ?_
            rw [(taken_scan? hs).spelled hword]
            exact ⟨[], s.rest, happend⟩
          · exact .inl hmem
        · exact .inr fun word hword => (hpart word hword).trans ⟨s.text, [], by
            rw [List.append_nil, happend]⟩
      · cases h

/-- The words of a text are parts of it. -/
theorem infix_of_mem_significant {cs : List Char} {ts : List Token} (h : significant cs = .ok ts)
    {t : Token} (ht : t ∈ ts) {word : String} (hword : t.word? = some word) :
    word.toList <:+: cs := by
  obtain ⟨ls, hls, rfl⟩ : ∃ ls, tokens cs = .ok ls ∧
      (ls.map (·.token)).filter (fun t => !t.isBlank) = ts := by
    unfold significant at h
    cases htokens : tokens cs with
    | error e =>
      rw [htokens] at h
      cases h
    | ok ls =>
      rw [htokens] at h
      cases h
      exact ⟨ls, rfl, rfl⟩
  obtain ⟨x, hx, rfl⟩ := List.mem_map.1 (List.mem_of_mem_filter ht)
  rcases infix_of_mem_tokensFrom hls x hx with hnil | hpart
  · exact absurd hnil List.not_mem_nil
  · exact hpart word hword

/-! ### What starts no token of a kind -/

/-- The signs and parentheses. -/
def signs : List Char := ['+', '-', '*', '/', '^', '%', '=', '(', ')']

theorem scanBlank_eq_none {c : Char} {cs : List Char} (hc : Text.isBlank c = false) :
    scanBlank (c :: cs) = none := by
  rw [scanBlank, List.takeWhile_cons_of_neg (by simp [hc])]
  rfl

theorem scanOperator_eq_none {c : Char} (hc : c ∉ signs) (cs : List Char) :
    scanOperator (c :: cs) = none := by
  unfold scanOperator
  split
  all_goals first
    | rfl
    | next heq => exact absurd (by rw [(List.cons.inj heq).1]; decide) hc

theorem scanParen_eq_none {c : Char} (hopen : c ≠ '(') (hclose : c ≠ ')') (cs : List Char) :
    scanParen (c :: cs) = none := by
  unfold scanParen
  split
  · next heq => exact absurd (List.cons.inj heq).1 hopen
  · next heq => exact absurd (List.cons.inj heq).1 hclose
  · rfl

theorem scanSign_eq_nil {c : Char} (hplus : c ≠ '+') (hminus : c ≠ '-') (cs : List Char) :
    scanSign (c :: cs) = ([], c :: cs) := by
  unfold scanSign
  split
  · next heq => exact absurd (List.cons.inj heq).1 hplus
  · next heq => exact absurd (List.cons.inj heq).1 hminus
  · rfl

theorem scanRadix_eq_none {c : Char} (hc : c ≠ '0') (marker : Char) (base : Nat)
    (isDigit : Char → Bool) (cs : List Char) : scanRadix marker base isDigit (c :: cs) = none := by
  unfold scanRadix
  split
  · next heq => exact absurd (List.cons.inj heq).1 hc
  · rfl

theorem scanFraction_eq_nil {c : Char} {behind : List Char}
    (h : ¬ (c = '.' ∧ ∃ d rest, behind = d :: rest ∧ d.isDigit = true)) :
    scanFraction (c :: behind) = ([], c :: behind) := by
  unfold scanFraction
  split
  · next cs heq =>
    obtain ⟨rfl, rfl⟩ := List.cons.inj heq
    cases behind with
    | nil => rfl
    | cons d rest =>
      have hd : d.isDigit = false := Bool.eq_false_iff.2 fun hd => h ⟨rfl, d, rest, rfl, hd⟩
      rw [List.takeWhile_cons, hd]
      rfl
  · rfl

theorem scanDecimal_eq_none {c : Char} {behind : List Char} (hdigit : c.isDigit = false)
    (hpoint : ¬ (c = '.' ∧ ∃ d rest, behind = d :: rest ∧ d.isDigit = true)) :
    scanDecimal (c :: behind) = none := by
  rw [scanDecimal, List.takeWhile_cons_of_neg (by simp [hdigit]),
    List.dropWhile_cons_of_neg (by simp [hdigit]), scanFraction_eq_nil hpoint]
  rfl

theorem ne_zero_of_not_isDigit {c : Char} (hdigit : c.isDigit = false) : c ≠ '0' := by
  rintro rfl
  cases hdigit

/-- Only a word can start with what is neither a blank nor a sign and starts no number. -/
theorem scan?_eq_scanWord {c : Char} {behind : List Char} (hblank : Text.isBlank c = false)
    (hdigit : c.isDigit = false) (hsign : c ∉ signs)
    (hpoint : ¬ (c = '.' ∧ ∃ d rest, behind = d :: rest ∧ d.isDigit = true)) :
    scan? (c :: behind) = scanWord (c :: behind) := by
  have hzero := ne_zero_of_not_isDigit hdigit
  have hparen : scanParen (c :: behind) = none := by
    refine scanParen_eq_none ?_ ?_ behind
    all_goals
      rintro rfl
      exact hsign (by decide)
  rw [scan?, scanBlank_eq_none hblank, scanRadix_eq_none hzero, scanRadix_eq_none hzero,
    scanRadix_eq_none hzero, scanDecimal_eq_none hdigit hpoint, scanOperator_eq_none hsign, hparen]
  rfl

/-! ### Names -/

/-- Neither blanks nor what starts a number or a sign can start a name. -/
theorem not_isNameStart : ∀ c ∈ '.' :: (signs ++ Spelling.plainChars), Text.isNameStart c = false :=
  List.all_iff_forall_prop.1 (by decide +kernel)

/-- A name is scanned as a word, for nothing else starts with a letter or an underscore. -/
theorem scan?_word {c : Char} {cs : List Char} (hc : Text.isNameStart c = true)
    (hcs : ∀ x ∈ cs, Text.isNamePart x = true) (rest : List Char)
    (hrest : ∀ x behind, rest = x :: behind → Text.isNamePart x = false) :
    scan? (c :: (cs ++ rest)) = some ⟨ofWord (String.ofList (c :: cs)), c :: cs, rest⟩ := by
  have hne : ∀ x ∈ '.' :: (signs ++ Spelling.plainChars), c ≠ x := by
    rintro x hx rfl
    cases (not_isNameStart c hx).symm.trans hc
  have hplain : c ∉ Spelling.plainChars := fun hmem =>
    hne c (List.mem_cons_of_mem _ (List.mem_append_right _ hmem)) rfl
  have hsign : c ∉ signs := fun hmem =>
    hne c (List.mem_cons_of_mem _ (List.mem_append_left _ hmem)) rfl
  have hblank : Text.isBlank c = false := Bool.eq_false_iff.2 fun hblank =>
    hplain (Spelling.mem_plainChars_of_isBlank hblank)
  have hdigit : c.isDigit = false := Bool.eq_false_iff.2 fun hdigit =>
    hplain (Spelling.mem_plainChars_of_isDigit hdigit)
  obtain ⟨htake, hdrop⟩ := Spelling.takeWhile_dropWhile_append hcs hrest
  rw [scan?_eq_scanWord hblank hdigit hsign fun hpoint => hne '.' (List.mem_cons_self ..) hpoint.1,
    scanWord, if_pos hc, htake, hdrop]

/-! ### Numbers -/

/-- What may stand behind a number: nothing, or a blank. -/
def Ends (rest : List Char) : Prop := ∀ c behind, rest = c :: behind → Text.isBlank c = true

theorem ends_nil : Ends [] := fun _ _ h => by cases h

/-- The characters of decimal numbers besides the digits. -/
def decimalMarks : List Char := ['.', 'e', 'E', '+', '-']

theorem decimalMarks_facts : ∀ c ∈ decimalMarks ++ Spelling.digitChars,
    Text.isBlank c = false ∧ radixes.all (fun r => c.toLower != r.1) = true :=
  List.all_iff_forall_prop.1 (by decide)

/-- No blank plays a part in numbers. -/
theorem blanks_facts : ∀ c ∈ Spelling.blankCodes.map Char.ofNat, c ∉ decimalMarks ∧
    c.isDigit = false ∧ radixes.all (fun r => c.toLower != r.1 && !r.2.2 c) = true :=
  List.all_iff_forall_prop.1 (by decide)

theorem Exponent.mem {cs : List Char} {e : Int} (h : Exponent cs e) {c : Char} (hc : c ∈ cs) :
    c.isDigit = true ∨ c ∈ decimalMarks := by
  cases h with
  | none => cases hc
  | @some mark sign run hmark hsign _ hrun =>
    rcases List.mem_cons.1 hc with rfl | hc
    · refine .inr ?_
      rcases hmark with rfl | rfl <;> decide
    · rcases List.mem_append.1 hc with hc | hc
      · refine .inr ?_
        have hsigns : ∀ sign ∈ [[], ['+'], ['-']], ∀ x ∈ sign, x ∈ decimalMarks := by
          simp [decimalMarks]
        exact hsigns sign hsign c hc
      · exact .inl (hrun c hc)

section
variable {rest : List Char} (hrest : Ends rest)
include hrest

theorem Ends.facts {c : Char} {behind : List Char} (h : rest = c :: behind) :
    c ∉ decimalMarks ∧ c.isDigit = false ∧ ∀ r ∈ radixes, c.toLower ≠ r.1 ∧ r.2.2 c = false := by
  obtain ⟨hmarks, hdigit, hradix⟩ := blanks_facts c (Spelling.mem_blankChars (hrest c behind h))
  refine ⟨hmarks, hdigit, fun r hr => ?_⟩
  simpa using List.all_eq_true.1 hradix r hr

theorem Exponent.scanExponent_eq {cs : List Char} {e : Int} (h : Exponent cs e) :
    scanExponent (cs ++ rest) = (cs, e, rest) := by
  cases h with
  | none =>
    rw [List.nil_append]
    cases hcases : rest with
    | nil => rfl
    | cons c behind =>
      have hmark := (hrest.facts hcases).1
      refine if_neg fun hif => hmark ?_
      rcases hif.1 with rfl | rfl <;> decide
  | @some mark sign run hmark hsign hne hrun =>
    obtain ⟨htake, hdrop⟩ := Spelling.takeWhile_dropWhile_append hrun fun c _ heq =>
      (hrest.facts heq).2.1
    have hscan : scanSign (sign ++ (run ++ rest)) = (sign, run ++ rest) := by
      cases run with
      | nil => exact absurd rfl hne
      | cons c run =>
        have hc := hrun c (List.mem_cons_self ..)
        simp only [List.mem_cons, List.not_mem_nil, or_false] at hsign
        rcases hsign with rfl | rfl | rfl
        · exact scanSign_eq_nil (by rintro rfl; cases hc) (by rintro rfl; cases hc) _
        · rfl
        · rfl
    rw [List.cons_append, List.append_assoc, scanExponent, hscan]
    dsimp only
    rw [htake, hdrop, if_pos ⟨hmark, hne⟩]

/-- No digit follows the digits in front of a fraction and an exponent. -/
theorem Exponent.not_isDigit {cs : List Char} {e : Int} (h : Exponent cs e) :
    ∀ c behind, cs ++ rest = c :: behind → c.isDigit = false := by
  intro c behind heq
  cases h with
  | none => exact (hrest.facts heq).2.1
  | some hmark =>
    rw [← (List.cons.inj heq).1]
    rcases hmark with rfl | rfl <;> rfl

theorem Exponent.not_isDigit_fraction {cs : List Char} {e : Int} (h : Exponent cs e)
    (fraction : List Char) : ∀ c behind, fractionText '.' fraction ++ (cs ++ rest) = c :: behind →
      c.isDigit = false := by
  unfold fractionText
  split
  · exact h.not_isDigit hrest
  · intro c behind heq
    rw [← (List.cons.inj heq).1]
    rfl

theorem Exponent.scanFraction_eq {fraction exponent : List Char} {e : Int}
    (hfraction : Digits fraction) (h : Exponent exponent e) :
    scanFraction (fractionText '.' fraction ++ (exponent ++ rest)) =
      (fractionText '.' fraction, exponent ++ rest) := by
  have hpoint : ∀ behind, exponent ++ rest ≠ '.' :: behind := by
    intro behind heq
    cases h with
    | none => exact (hrest.facts heq).1 (by decide)
    | some hmark =>
      have hmark' := (List.cons.inj heq).1
      rcases hmark with rfl | rfl <;> cases hmark'
  unfold fractionText
  split
  · rw [List.nil_append]
    unfold scanFraction
    split
    · next behind heq => exact absurd heq (hpoint behind)
    · rfl
  · next hne =>
    obtain ⟨htake, hdrop⟩ := Spelling.takeWhile_dropWhile_append hfraction (h.not_isDigit hrest)
    rw [List.cons_append, scanFraction, htake, hdrop, if_neg hne]

theorem scanRadix_self {marker m : Char} {base : Nat} {isDigit : Char → Bool} {run : List Char}
    (hradix : (marker, base, isDigit) ∈ radixes) (hm : m.toLower = marker) (hne : run ≠ [])
    (hrun : ∀ c ∈ run, isDigit c = true) (hsize : Decimal.ofDigits base run < UInt64.size) :
    scanRadix marker base isDigit ('0' :: m :: (run ++ rest)) =
      some ⟨.number (Double.ofNat (Decimal.ofDigits base run)), '0' :: m :: run, rest⟩ := by
  obtain ⟨htake, hdrop⟩ := Spelling.takeWhile_dropWhile_append hrun fun c _ heq =>
    ((hrest.facts heq).2.2 _ hradix).2
  rw [scanRadix, htake, hdrop, if_pos ⟨hm, hne, hsize⟩]

theorem scanDecimal_self {whole fraction exponent : List Char} {e : Int} (hwhole : Digits whole)
    (hfraction : Digits fraction) (h : Exponent exponent e)
    (hparts : ¬ (whole = [] ∧ fractionText '.' fraction = [])) :
    scanDecimal (whole ++ fractionText '.' fraction ++ exponent ++ rest) =
      some ⟨.number (Decimal.ofParts false whole fraction e),
        whole ++ fractionText '.' fraction ++ exponent, rest⟩ := by
  obtain ⟨htake, hdrop⟩ := Spelling.takeWhile_dropWhile_append hwhole
    (h.not_isDigit_fraction hrest fraction)
  rw [List.append_assoc, List.append_assoc, scanDecimal, htake, hdrop,
    h.scanFraction_eq hrest hfraction]
  dsimp only
  rw [if_neg hparts, h.scanExponent_eq hrest, drop_fractionText, List.append_assoc]

end

theorem scanRadix_of_ne {marker m : Char} (hm : m.toLower ≠ marker) (base : Nat)
    (isDigit : Char → Bool) (cs : List Char) : scanRadix marker base isDigit ('0' :: m :: cs) = none :=
  if_neg fun hif => hm hif.1

theorem Literal.decimal_mem {whole fraction exponent : List Char} {e : Int} (hwhole : Digits whole)
    (hfraction : Digits fraction) (h : Exponent exponent e) {c : Char}
    (hc : c ∈ whole ++ fractionText '.' fraction ++ exponent) :
    c.isDigit = true ∨ c ∈ decimalMarks := by
  rcases List.mem_append.1 hc with hc | hc
  · rcases List.mem_append.1 hc with hc | hc
    · exact .inl (hwhole c hc)
    · refine (mem_fractionText hfraction hc).imp_right fun heq => ?_
      rw [heq]
      exact List.mem_cons_self ..
  · exact h.mem hc

theorem decimal_facts {c : Char} (h : c.isDigit = true ∨ c ∈ decimalMarks) :
    Text.isBlank c = false ∧ ∀ r ∈ radixes, c.toLower ≠ r.1 := by
  have hmem : c ∈ decimalMarks ++ Spelling.digitChars :=
    h.elim (fun h => List.mem_append_right _ (Spelling.mem_digitChars h)) (List.mem_append_left _)
  obtain ⟨hblank, hradix⟩ := decimalMarks_facts c hmem
  exact ⟨hblank, fun r hr => by simpa using List.all_eq_true.1 hradix r hr⟩

/-- What stands in a decimal number is no letter of a radix, and neither is what ends it. -/
theorem scanRadix_decimal {n rest : List Char} (hrest : Ends rest)
    (hn : ∀ c ∈ n, c.isDigit = true ∨ c ∈ decimalMarks) (hne : n ≠ []) {marker : Char} {base : Nat}
    {isDigit : Char → Bool} (hradix : (marker, base, isDigit) ∈ radixes) :
    scanRadix marker base isDigit (n ++ rest) = none := by
  obtain ⟨c, cs, rfl⟩ := List.exists_cons_of_ne_nil hne
  unfold scanRadix
  split
  · next m behind heq =>
    refine if_neg fun hif => ?_
    have htail : cs ++ rest = m :: behind := (List.cons.inj heq).2
    cases cs with
    | nil => exact ((hrest.facts htail).2.2 _ hradix).1 hif.1
    | cons d cs =>
      have hd := (decimal_facts (hn d (by simp))).2 _ hradix
      rw [(List.cons.inj htail).1] at hd
      exact hd hif.1
  · rfl

/-- The text of a number is taken as the number, whatever is behind the blank that ends it. -/
theorem Literal.scan?_eq {n rest : List Char} {x : Float} (h : Literal n x) (hrest : Ends rest) :
    scan? (n ++ rest) = some ⟨.number x, n, rest⟩ := by
  cases h with
  | @radix marker base isDigit m run hradix hm hne hrun hsize =>
    have hself := scanRadix_self hrest hradix hm hne hrun hsize
    rw [scan?, List.cons_append, List.cons_append, scanBlank_eq_none (by decide)]
    simp only [radixes, List.mem_cons, Prod.mk.injEq, List.not_mem_nil, or_false] at hradix
    -- the bases are tried one after the other, and the marker fits one of them only
    rcases hradix with ⟨rfl, rfl, rfl⟩ | ⟨rfl, rfl, rfl⟩ | ⟨rfl, rfl, rfl⟩
    · rw [hself]
      rfl
    · rw [scanRadix_of_ne (by rw [hm]; decide), hself]
      rfl
    · rw [scanRadix_of_ne (by rw [hm]; decide), scanRadix_of_ne (by rw [hm]; decide), hself]
      rfl
  | @decimal whole fraction exponent e hwhole hfraction hne h =>
    have hchars := fun c hc => decimal_mem hwhole hfraction h (c := c) hc
    have hparts : ¬ (whole = [] ∧ fractionText '.' fraction = []) := by
      unfold fractionText
      split
      · next hnil => exact fun hno => hne.elim (absurd hno.1) (absurd hnil)
      · exact fun hno => List.cons_ne_nil _ _ hno.2
    have hdecimal := scanDecimal_self hrest hwhole hfraction h hparts
    cases htext : whole ++ fractionText '.' fraction ++ exponent with
    | nil => exact absurd (List.append_eq_nil_iff.1 (List.append_eq_nil_iff.1 htext).1) hparts
    | cons c cs =>
      rw [htext] at hchars hdecimal
      have hradix : ∀ marker base isDigit, (marker, base, isDigit) ∈ radixes →
          scanRadix marker base isDigit (c :: cs ++ rest) = none := fun _ _ _ =>
        scanRadix_decimal hrest hchars (List.cons_ne_nil c cs)
      have hblank := (decimal_facts (hchars c (List.mem_cons_self ..))).1
      rw [scan?, List.cons_append, scanBlank_eq_none hblank, ← List.cons_append,
        hradix _ _ _ (by simp [radixes]), hradix _ _ _ (by simp [radixes]),
        hradix _ _ _ (by simp [radixes]), hdecimal]
      rfl

/-- The texts that are taken as one number are the texts of numbers. -/
theorem scan?_eq_number_iff {n : List Char} {x : Float} :
    scan? n = some ⟨.number x, n, []⟩ ↔ Literal n x := by
  constructor
  · exact fun h => (taken_scan? h).literal rfl
  · intro h
    have hscan := h.scan?_eq ends_nil
    rwa [List.append_nil] at hscan

end Token

end Reckoner

import Reckoner.Proofs.Currency.Words
import Reckoner.Proofs.Effect
import Reckoner.Proofs.Grammar.Quantities
import Reckoner.Proofs.Spelling.Literals
import Reckoner.Proofs.Spelling.Names

/-!
# Amounts of money in several spellings

For every form of a number a new session replies the same amount of money, with a code behind the number
or with the symbol of the currency (`Session.reply_spelled`). With the symbol in front it is that amount
only if the number is digits and a fraction: what else there is of it is cut off by the symbol, and joined
with the code it is the name of nothing (`Session.reply_joined`). A number that starts with its point is
not found behind the symbol at all (`Session.reply_behind_code`).
-/

namespace Reckoner

open Currency (ofSymbol?)

/-! ### Tokens of money -/

namespace Token
open Spelling (Tail figureChars markLetters)

theorem markLetters_facts {c : Char} (h : c ∈ markLetters) :
    Text.isNamePart c = true ∧ c.toNat < 0x80 := by
  have hfacts : ∀ c ∈ markLetters, Text.isNamePart c = true ∧ c.toNat < 0x80 :=
    List.all_iff_forall_prop.1 (by decide)
  exact hfacts c h

theorem hexDigit_facts {c : Char} (h : isHexDigit c = true) :
    Text.isNamePart c = true ∧ c.toNat < 0x80 := by
  have hfacts : ∀ c ∈ figureChars, isHexDigit c = true → Text.isNamePart c = true ∧ c.toNat < 0x80 :=
    List.all_iff_forall_prop.1 (by decide)
  exact hfacts c (Spelling.mem_figureChars_of_isHexDigit h) h

theorem Literal.cutsInto {n rest : List Char} {x : Float} {ts : List Token} (hn : Literal n x)
    (hrest : Ends rest) (h : CutsInto rest ts) : CutsInto (n ++ rest) (.number x :: ts) :=
  h.of_scan? (hn.scan?_eq hrest)

theorem ends_blanks {blanks : List Char} (hblanks : ∀ b ∈ blanks, Text.isBlank b = true)
    (hne : blanks ≠ []) (rest : List Char) : Ends (blanks ++ rest) := by
  intro c behind heq
  cases blanks with
  | nil => exact absurd rfl hne
  | cons b bs => exact (List.cons.inj heq).1 ▸ hblanks b (List.mem_cons_self ..)

section
variable {symbol : Char} {code : String} (hsymbol : ofSymbol? symbol = some code)
include hsymbol

/-- A word that starts with a code is a name. -/
theorem cutsInto_word {more rest : List Char} {ts : List Token}
    (hmore : ∀ c ∈ more, Text.isNamePart c = true)
    (hrest : ∀ c behind, rest = c :: behind → Text.isNamePart c = false) (h : CutsInto rest ts) :
    CutsInto (code.toList ++ (more ++ rest))
      (.identifier (String.ofList (code.toList ++ more)) :: ts) := by
  have hword : code.toList <+: (String.ofList (code.toList ++ more)).toList := by
    rw [String.toList_ofList]
    exact List.prefix_append ..
  have hname : ofWord (String.ofList (code.toList ++ more)) =
      .identifier (String.ofList (code.toList ++ more)) := by
    rw [ofWord, (Currency.meaningless hsymbol hword).keyword]
  obtain ⟨c, cs, hlist, hc, -, hchars⟩ := Currency.toList_code hsymbol
  have hparts : ∀ x ∈ cs ++ more, Text.isNamePart x = true := List.forall_mem_append.2
    ⟨fun x hx => (hchars x (hlist ▸ List.mem_cons_of_mem _ hx)).1, hmore⟩
  have hscan := scan?_word hc hparts rest hrest
  rw [hlist, List.cons_append] at hname
  rw [hname, List.append_assoc] at hscan
  rw [hlist]
  exact h.of_scan? hscan

variable {n blanks : List Char} {x : Float} (hn : Literal n x)
  (hblanks : ∀ b ∈ blanks, Text.isBlank b = true)
include hn hblanks

theorem cutsInto_money (hne : blanks ≠ []) {more rest : List Char} {ts : List Token}
    (hmore : ∀ c ∈ more, Text.isNamePart c = true)
    (hrest : ∀ c behind, rest = c :: behind → Text.isNamePart c = false) (h : CutsInto rest ts) :
    CutsInto (n ++ (blanks ++ (code.toList ++ (more ++ rest))))
      (.number x :: .identifier (String.ofList (code.toList ++ more)) :: ts) := by
  have hstart : ∀ c behind, code.toList ++ (more ++ rest) = c :: behind → Text.isBlank c = false := by
    intro c behind heq
    have hfirst := (Spelling.ends_code hsymbol [] (more ++ rest)).1
    rwa [heq] at hfirst
  exact hn.cutsInto (ends_blanks hblanks hne _)
    ((cutsInto_word hsymbol hmore hrest h).blanks hblanks hstart)

theorem cutsInto_behind_code (hne : blanks ≠ []) : CutsInto (code.toList ++ (blanks ++ n))
    [.identifier code, .number x] := by
  have hnumber : CutsInto (n ++ []) [.number x] := hn.cutsInto ends_nil .nil
  rw [List.append_nil] at hnumber
  have hstart : ∀ c behind, n = c :: behind → Text.isBlank c = false := fun c behind heq =>
    (Spelling.literal_facts hn (heq ▸ List.mem_cons_self ..)).1
  have hword := cutsInto_word hsymbol (List.forall_mem_nil _) (fun c behind heq =>
    Spelling.not_isNamePart c (List.mem_append_right _ (List.mem_append_left _
      (Spelling.mem_blankChars (ends_blanks hblanks hne n c behind heq))))) (hnumber.blanks hblanks hstart)
  rwa [List.append_nil, String.ofList_toList] at hword

end

theorem cutsInto_signed {sign : Char} (hsign : sign = '+' ∨ sign = '-') {run : List Char}
    (hne : run ≠ []) (hrun : Decimal.Digits run) :
    ∃ o y, (o = .plus ∨ o = .minus) ∧ CutsInto (sign :: run) [.operator o, .number y] := by
  have hliteral := Literal.decimal hrun .nil (.inl hne) .none
  have htext : run ++ Decimal.fractionText '.' [] ++ [] = run := by simp [Decimal.fractionText]
  rw [htext] at hliteral
  have hdigits : CutsInto (run ++ []) _ := hliteral.cutsInto ends_nil .nil
  rw [List.append_nil] at hdigits
  rcases hsign with rfl | rfl
  · have hscan : scan? ('+' :: run) = some ⟨.operator .plus, ['+'], run⟩ := rfl
    exact ⟨.plus, _, .inl rfl, hdigits.of_scan? hscan⟩
  · have hscan : scan? ('-' :: run) = some ⟨.operator .minus, ['-'], run⟩ := rfl
    exact ⟨.minus, _, .inr rfl, hdigits.of_scan? hscan⟩

end Token

namespace Session
open Decimal (Written)
open Spelling (Tail normalize amountAt)

/-! ### Replies -/

theorem valueIn_plain (e : Expr) (m : Memory) (l : Locale) :
    Statement.valueIn ⟨none, e, none⟩ m l = e.eval ⟨m, l⟩ := by
  rw [Statement.valueIn, Statement.eval]
  cases e.eval ⟨m, l⟩ <;> rfl

/-- The amount that a new session replies to an input. -/
def reply (text : List Char) : Outcome Value :=
  ((evaluate (String.ofList text)).exec .new).1.map (·.value)

/-- The outcome for an input within the limit; a longer one is refused. -/
def withinLimit (text : List Char) (o : Outcome Value) : Outcome Value :=
  if greatestInput < (String.ofList text).utf8ByteSize then
    .error (.inputTooLarge (String.ofList text).utf8ByteSize)
  else o

theorem reply_of_tokens {text : List Char} {ts : List Token} {c : Char} (hc : c ∈ text)
    (hblank : Text.isBlank c = false)
    (htokens : Token.CutsInto (normalize .english text) ts) (hnesting : checkNesting ts = .ok ()) :
    reply text = withinLimit text (match Statement.parse .english ts with
      | .error e => .error (.reading (.grammar e))
      | .ok st => st.valueIn .new .english) := by
  have hlocale : Session.new.shared.locale = .english := rfl
  have htrim : Text.trim text ≠ [] := fun hnil => by
    have hmem := (Text.thins_trim text).mem_of_not_blank hc hblank
    rw [hnil] at hmem
    cases hmem
  rw [reply, map_value_evaluate, hlocale, Statement.ofInput, Reading.ofInput, checkInput,
    String.toList_ofList, withinLimit]
  by_cases hsize : greatestInput < (String.ofList text).utf8ByteSize
  · rw [if_pos hsize, if_pos hsize]
    rfl
  · rw [if_neg hsize, if_neg hsize, if_neg htrim]
    dsimp only
    rw [Reading.ofNormal, htokens.significant]
    dsimp only
    rw [Reading.ofTokens, hnesting]
    dsimp only
    cases Statement.parse .english ts <;> rfl

theorem withinLimit_error (text : List Char) (f : Failure) :
    ∃ e, withinLimit text (.error f) = .error e := by
  unfold withinLimit
  split <;> exact ⟨_, rfl⟩

section
variable {symbol : Char} {code : String} (hsymbol : ofSymbol? symbol = some code)
  {n blanks text : List Char} {x : Float} (hn : Token.Literal n x)
  (hblanks : ∀ b ∈ blanks, Text.isBlank b = true) (hne : blanks ≠ [])
include hsymbol hn hblanks hne

/-- What is read as a number with a code is an amount of money. -/
theorem reply_money {c : Char} (hc : c ∈ text) (hblank : Text.isBlank c = false)
    (hnormal : normalize .english text = n ++ (blanks ++ code.toList)) :
    reply text = withinLimit text (finite ⟨x, .currency code⟩) := by
  have hcode := Currency.meaningless hsymbol (List.prefix_refl code.toList)
  have htokens : Token.CutsInto (normalize .english text) [.number x, .identifier code] := by
    have hcuts := Token.cutsInto_money hsymbol hn hblanks hne (List.forall_mem_nil _)
      (fun _ _ heq => by cases heq) .nil
    rw [List.append_nil, List.append_nil, String.ofList_toList] at hcuts
    rwa [hnormal]
  rw [reply_of_tokens hc hblank htokens rfl, Statement.parse_quantity .english hcode.function hcode.scale]
  dsimp only
  rw [valueIn_plain, Currency.eval_money hsymbol]

/-- A code that is joined with letters behind a number is the name of nothing. -/
theorem reply_joined {c : Char} (hc : c ∈ text) (hblank : Text.isBlank c = false) {tail : List Char}
    (htail : Tail tail) (hlong : tail ≠ [])
    (hnormal : normalize .english text = n ++ (blanks ++ (code.toList ++ tail))) :
    ∃ e, reply text = .error e := by
  cases htail with
  | nil => exact absurd rfl hlong
  | @run m run hm _ hrun =>
    have hchars : ∀ c ∈ m :: run, Text.isNamePart c = true ∧ c.toNat < 0x80 :=
      List.forall_mem_cons.2 ⟨Token.markLetters_facts hm, fun c hc => Token.hexDigit_facts (hrun c hc)⟩
    obtain ⟨hword, e, heval⟩ :=
      Currency.joined_unknown hsymbol (List.cons_ne_nil m run) hchars x
    have htokens := Token.cutsInto_money hsymbol hn hblanks hne (fun c hc => (hchars c hc).1)
      (fun _ _ heq => by cases heq) .nil
    rw [List.append_nil, ← hnormal] at htokens
    rw [reply_of_tokens hc hblank htokens rfl, Statement.parse_quantity .english hword.function hword.scale]
    dsimp only
    rw [valueIn_plain, heval]
    exact withinLimit_error text e
  | @signed m sign run hm hsign hrunne hrun =>
    -- the word ends in front of the sign, whose digits are a number of their own
    have hchars : ∀ c ∈ [m], Text.isNamePart c = true ∧ c.toNat < 0x80 :=
      List.forall_mem_singleton.2 (Token.markLetters_facts hm)
    have hstop : ∀ c behind, sign :: run = c :: behind → Text.isNamePart c = false := by
      intro c behind heq
      rw [← (List.cons.inj heq).1]
      rcases hsign with rfl | rfl <;> decide
    obtain ⟨hword, e, heval⟩ :=
      Currency.joined_unknown hsymbol (List.cons_ne_nil m []) hchars x
    obtain ⟨o, y, ho, hsigned⟩ := Token.cutsInto_signed hsign hrunne hrun
    have htokens := Token.cutsInto_money hsymbol hn hblanks hne (fun c hc => (hchars c hc).1) hstop hsigned
    rw [List.singleton_append, ← hnormal] at htokens
    have hnesting : checkNesting [.number x, .identifier (String.ofList (code.toList ++ [m])),
        .operator o, .number y] = .ok () := by
      rcases ho with rfl | rfl <;> rfl
    obtain ⟨op, hparse⟩ := Statement.parse_sum .english hword.function hword.scale ho x y
    rw [reply_of_tokens hc hblank htokens hnesting, hparse]
    dsimp only
    rw [valueIn_plain, Expr.eval_binary_of_not_percent rfl, heval]
    exact withinLimit_error text e

/-- A number behind a code is no statement. -/
theorem reply_behind_code {c : Char} (hc : c ∈ text) (hblank : Text.isBlank c = false)
    (hnormal : normalize .english text = code.toList ++ (blanks ++ n)) :
    ∃ e, reply text = .error e := by
  have htokens : Token.CutsInto (normalize .english text) [.identifier code, .number x] :=
    hnormal ▸ Token.cutsInto_behind_code hsymbol hn hblanks hne
  obtain ⟨e, hparse⟩ := Statement.parse_behind_name .english code x
  rw [reply_of_tokens hc hblank htokens rfl, hparse]
  exact withinLimit_error text _

end

/-! ### One amount, spelled in several ways -/

theorem amountAt_eq_iff {w : Written} {tail : List Char} (hw : w.Proper) (htail : Tail tail) :
    amountAt (w.mantissa '.' ++ tail) = w.mantissa '.' ++ tail ↔ tail = [] := by
  rw [Spelling.amountAt_mantissa hw htail.behind]
  exact ⟨fun h => List.append_right_eq_self.1 h.symm, fun h => by rw [h, List.append_nil]⟩

/-- A code behind a number and a symbol behind it are the same amount of money, whatever the form of
the number. A symbol before it is so where the number is digits and a fraction only, and where it has
more to it or starts with its point the input fails. -/
theorem reply_spelled {symbol : Char} {code : String} {n gap : List Char} {x : Float}
    (hsymbol : ofSymbol? symbol = some code) (hn : Token.scan? n = some ⟨.number x, n, []⟩)
    (hgap : ∀ c ∈ gap, c = ' ') :
    let coded := n ++ ' ' :: code.toList
    let behind := n ++ (gap ++ [symbol])
    let before := symbol :: (gap ++ n)
    reply coded = withinLimit coded (finite ⟨x, .currency code⟩) ∧
      reply behind = withinLimit behind (finite ⟨x, .currency code⟩) ∧
      if amountAt n = n then reply before = withinLimit before (finite ⟨x, .currency code⟩)
      else ∃ e, reply before = .error e := by
  intro coded behind before
  have hn := Token.scan?_eq_number_iff.1 hn
  have hspace : ∀ b ∈ [' '], Text.isBlank b = true := List.forall_mem_singleton.2 rfl
  have hspaces : ∀ b ∈ ' ' :: gap, Text.isBlank b = true :=
    List.forall_mem_cons.2 ⟨rfl, fun b hb => hgap b hb ▸ rfl⟩
  have hsolid : Text.isBlank symbol = false := Spelling.isBlank_of_ofSymbol? hsymbol
  have hbehind : symbol ∈ behind := by simp [behind]
  have hbefore : symbol ∈ before := List.mem_cons_self ..
  refine ⟨?coded, ?behind, ?before⟩
  case coded =>
    have hfirst := List.head_mem (Spelling.literal_ne_nil hn)
    exact reply_money hsymbol hn hspace (List.cons_ne_nil _ _) (List.mem_append_left _ hfirst)
      (Spelling.literal_facts hn hfirst).1 (Spelling.normalize_code hn hsymbol)
  case behind =>
    obtain ⟨blanks, hne, hblanks, hnormal⟩ := Spelling.normalize_symbolAfter hn hsymbol hgap
    exact reply_money hsymbol hn hblanks hne hbehind hsolid hnormal
  case before =>
    rcases Spelling.exists_parts hn with ⟨w, tail, hw, htail, hparts⟩ | ⟨cs, hpoint⟩
    · -- the code comes behind the digits and the fraction, in front of what is left of the number
      have hnormal := Spelling.normalize_symbolBefore hn hsymbol hgap hw htail hparts
      have hiff := amountAt_eq_iff hw htail
      rw [← hparts] at hiff
      by_cases hnil : tail = []
      · rw [if_pos (hiff.2 hnil)]
        refine reply_money hsymbol hn hspace (List.cons_ne_nil _ _) hbefore hsolid ?_
        rw [hnormal, hparts, hnil, List.append_nil, List.append_nil]
        rfl
      · rw [if_neg (mt hiff.1 hnil)]
        exact reply_joined hsymbol (.decimal hw.whole hw.fraction (.inl hw.nonempty) .none) hspace
          (List.cons_ne_nil _ _) hbefore hsolid htail hnil (hnormal.trans (by simp [Written.mantissa]))
    · have hnone : amountAt n ≠ n := by
        rw [hpoint]
        exact (List.cons_ne_nil _ _).symm
      rw [if_neg hnone]
      exact reply_behind_code hsymbol hn hspaces (List.cons_ne_nil _ _) hbefore hsolid
        (Spelling.normalize_symbolBefore_point hn hsymbol hgap hpoint)

theorem reply_spelled_euros :
    reply "2.5e3 EUR".toList = .ok ⟨2500, .currency "EUR"⟩ ∧
      reply "2.5e3 €".toList = .ok ⟨2500, .currency "EUR"⟩ ∧
      (∃ e, reply "€ 2.5e3".toList = .error e) ∧
      reply "€ 2500".toList = .ok ⟨2500, .currency "EUR"⟩ := by
  have hfinite : finite ⟨2500, .currency "EUR"⟩ = .ok ⟨2500, .currency "EUR"⟩ :=
    finite_of_finite (show (2500 : Float).isFinite = true by decide)
  have hgap : ∀ c ∈ [' '], c = ' ' := List.forall_mem_singleton.2 rfl
  obtain ⟨hcoded, hbehind, hbefore⟩ :=
    reply_spelled (n := "2.5e3".toList) (x := 2500) (rfl : ofSymbol? '€' = some "EUR") rfl hgap
  obtain ⟨-, -, hplain⟩ :=
    reply_spelled (n := "2500".toList) (x := 2500) (rfl : ofSymbol? '€' = some "EUR") rfl hgap
  rw [hfinite, withinLimit, if_neg (by decide)] at hcoded hbehind
  rw [if_neg (by decide)] at hbefore
  rw [if_pos (by decide), hfinite, withinLimit, if_neg (by decide)] at hplain
  exact ⟨hcoded, hbehind, hbefore, hplain⟩

/-- With an exponent, an amount behind its symbol is not the amount with its code. -/
theorem reply_exponent_cut : reply "$1e5".toList ≠ reply "1e5 USD".toList := by
  have hspace : ∀ b ∈ [' '], Text.isBlank b = true := List.forall_mem_singleton.2 rfl
  have hsymbol : ofSymbol? '$' = some "USD" := rfl
  have hone : Token.Literal ['1'] 1 := Token.scan?_eq_number_iff.1 rfl
  have hlong : Token.Literal "1e5".toList 1e5 := Token.scan?_eq_number_iff.1 rfl
  have hfinite : finite ⟨1e5, .currency "USD"⟩ = .ok ⟨1e5, .currency "USD"⟩ :=
    finite_of_finite (show (1e5 : Float).isFinite = true by decide)
  have hmoney : reply "1e5 USD".toList = withinLimit "1e5 USD".toList _ :=
    reply_money (c := '1') hsymbol hlong hspace (List.cons_ne_nil _ _) (by decide) rfl
      (by decide +kernel)
  have hmarked : Tail "e5".toList :=
    .run (m := 'e') (by decide) (List.cons_ne_nil '5' []) (List.forall_mem_singleton.2 rfl)
  obtain ⟨e, hjoined⟩ : ∃ e, reply "$1e5".toList = .error e :=
    reply_joined (c := '1') hsymbol hone hspace (List.cons_ne_nil _ _) (by decide) rfl
      hmarked (List.cons_ne_nil _ _) (by decide +kernel)
  rw [hmoney, hjoined, hfinite, withinLimit, if_neg (by decide)]
  rintro ⟨⟩

end Session

end Reckoner

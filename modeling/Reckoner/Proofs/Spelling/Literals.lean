import Reckoner.Proofs.ReadBack.Quiet
import Reckoner.Proofs.Scanning
import Reckoner.Proofs.Spelling.Stretches

/-!
# Numbers with a currency in front of them or behind them

The text of a number is kept as it stands, whatever its form, with a code or a symbol behind it
(`normalize_code`, `normalize_symbolAfter`). A symbol before it is put behind the digits and the fraction
at its start (`normalize_symbolBefore`): that is behind the number if these are all of it, and else
inside the number or, where it starts with a point, in front of it (`normalize_symbolBefore_point`).
-/

namespace Reckoner.Spelling

open Currency (ofSymbol?)
open Decimal (Digits Written fractionText mem_fractionText)
open Text (isBlank isDecimal)
open Token (Exponent Literal isHexDigit isBinaryDigit isOctalDigit radixes)

/-! ### The characters of numbers -/

/-- The characters of numbers but for those that can only stand behind a zero. -/
def figureChars : List Char := digitChars ++ "+-.abcdefABCDEF".toList

/-- The letters behind the digits and the fraction at the start of a number. -/
def markLetters : List Char := "eExXbBoO".toList

theorem mem_figureChars_of_isDigit {c : Char} (h : c.isDigit = true) : c ∈ figureChars :=
  List.mem_append_left _ (mem_digitChars h)

theorem mem_figureChars_of_isHexDigit {c : Char} (h : isHexDigit c = true) : c ∈ figureChars := by
  have hlt : c.toNat < 128 := by
    have hcases := h
    simp only [isHexDigit, Bool.or_eq_true, Bool.and_eq_true, decide_eq_true_eq] at hcases
    rcases hcases with (hdigit | ⟨-, hle⟩) | ⟨-, hle⟩
    · exact toNat_lt_of_le (d := '9') (by decide) (of_decide_eq_true (Bool.and_eq_true_iff.1 hdigit).2)
    · exact toNat_lt_of_le (by decide) hle
    · exact toNat_lt_of_le (by decide) hle
  exact of_ascii (P := fun c => isHexDigit c = true → c ∈ figureChars) (by decide) hlt h

section
variable {r : Char × Nat × (Char → Bool)} (hr : r ∈ radixes) {c : Char}
include hr

theorem isHexDigit_of_radix (hc : r.2.2 c = true) : isHexDigit c = true := by
  simp only [radixes, List.mem_cons, List.not_mem_nil, or_false] at hr
  rcases hr with rfl | rfl | rfl
  · exact hc
  · simp only [isBinaryDigit, Bool.or_eq_true, beq_iff_eq] at hc
    rcases hc with rfl | rfl <;> rfl
  · simp only [isOctalDigit, Bool.and_eq_true, decide_eq_true_eq] at hc
    have hdigit : c.isDigit = true := by
      simp only [Char.isDigit, Bool.and_eq_true, decide_eq_true_eq]
      exact ⟨hc.1, Nat.le_trans hc.2 (by decide)⟩
    rw [isHexDigit, hdigit]
    rfl

theorem mem_markLetters (hc : c.toLower = r.1) : c ∈ markLetters := by
  have hmarks : ∀ n < 128, ∀ r ∈ radixes, (Char.ofNat n).toLower = r.1 → Char.ofNat n ∈ markLetters := by
    decide
  have hbase : ∀ r ∈ radixes, r.1.toNat < 128 := by decide
  have hlt : c.toNat < 128 := toNat_lt_of_toLower (hc ▸ hbase r hr)
  exact of_ascii (P := fun c => ∀ r ∈ radixes, c.toLower = r.1 → c ∈ markLetters) hmarks hlt r hr hc

end

/-- What can be next to a character of a number. -/
def nextChars : List Char := figureChars ++ ' ' :: Currency.symbols.map (·.1)

/-- What is asked of the characters of numbers. Those that start a word do not with the next one. -/
theorem literalChars_facts : ∀ c ∈ figureChars ++ markLetters,
    (isBlank c = false ∧ c ≠ ',' ∧ ofSymbol? c = none ∧ isGroupSpace c = false ∧ c ∉ ruleChars) ∧
      startsPhrase [c] = false ∧
      (opensNoPhrase [c] || nextChars.all (opensNoPhrase [c, ·])) = true :=
  List.all_iff_forall_prop.1 (by decide)

/-! ### The parts of a number -/

/-- What is behind the digits and the fraction at the start of a number: an exponent, or the digits of
another base behind their letter. -/
inductive Tail : List Char → Prop where
  | nil : Tail []
  | run {m run} : m ∈ markLetters → run ≠ [] → (∀ c ∈ run, isHexDigit c = true) → Tail (m :: run)
  | signed {m sign run} : m ∈ markLetters → sign = '+' ∨ sign = '-' → run ≠ [] → Digits run →
      Tail (m :: sign :: run)

theorem isHexDigit_of_isDigit {c : Char} (h : c.isDigit = true) : isHexDigit c = true := by
  rw [isHexDigit, h]
  rfl

theorem Tail.of_exponent {cs : List Char} {e : Int} (h : Exponent cs e) : Tail cs := by
  cases h with
  | none => exact .nil
  | @some mark sign run hmark hsign hne hrun =>
    have hm : mark ∈ markLetters := by rcases hmark with rfl | rfl <;> decide
    simp only [List.mem_cons, List.not_mem_nil, or_false] at hsign
    rcases hsign with rfl | rfl | rfl
    · exact .run hm hne fun c hc => isHexDigit_of_isDigit (hrun c hc)
    · exact .signed hm (.inl rfl) hne hrun
    · exact .signed hm (.inr rfl) hne hrun

theorem Tail.mem {cs : List Char} (h : Tail cs) {c : Char} (hc : c ∈ cs) :
    c ∈ figureChars ++ markLetters ∧ c ≠ '.' := by
  have hfigure : ∀ {c : Char}, isHexDigit c = true → c ∈ figureChars ++ markLetters ∧ c ≠ '.' :=
    fun hc => ⟨List.mem_append_left _ (mem_figureChars_of_isHexDigit hc), fun heq => by
      rw [heq] at hc
      exact absurd hc (by decide)⟩
  have hmark : ∀ m ∈ markLetters, m ∈ figureChars ++ markLetters ∧ m ≠ '.' :=
    List.all_iff_forall_prop.1 (by decide)
  cases h with
  | nil => cases hc
  | run hm _ hrun =>
    rcases List.mem_cons.1 hc with rfl | hc
    · exact hmark _ hm
    · exact hfigure (hrun c hc)
  | signed hm hsign _ hrun =>
    rcases List.mem_cons.1 hc with rfl | hc
    · exact hmark _ hm
    · rcases List.mem_cons.1 hc with rfl | hc
      · rcases hsign with rfl | rfl <;> decide
      · exact hfigure (isHexDigit_of_isDigit (hrun c hc))

theorem Tail.behind {cs : List Char} (h : Tail cs) : Behind cs := by
  have hmark : ∀ m ∈ markLetters, isDecimal m = false := List.all_iff_forall_prop.1 (by decide)
  have hspace : ∀ c ∈ cs, isGroupSpace c = false := fun c hc =>
    (literalChars_facts c (h.mem hc).1).1.2.2.2.1
  have hloose := Loose.append hspace behind_nil.loose
  rw [List.append_nil] at hloose
  refine ⟨fun hc => (h.mem hc).2 rfl, fun hc => (literalChars_facts _ (h.mem hc).1).1.2.1 rfl, ?_, hloose⟩
  cases h with
  | nil => rfl
  | run hm => exact hmark _ hm
  | signed hm => exact hmark _ hm

/-- A number starts with digits and a fraction, or with a point. -/
theorem exists_parts {n : List Char} {x : Float} (h : Literal n x) :
    (∃ w : Written, ∃ tail, w.Proper ∧ Tail tail ∧ n = w.mantissa '.' ++ tail) ∨
      ∃ cs, n = '.' :: cs := by
  cases h with
  | @radix marker base isDigit m run hradix hm hne hrun =>
    exact .inl ⟨⟨['0'], [], none⟩, m :: run, ⟨List.cons_ne_nil _ _, List.forall_mem_singleton.2 rfl, .nil⟩,
      .run (mem_markLetters hradix hm) hne fun c hc => isHexDigit_of_radix hradix (hrun c hc), rfl⟩
  | @decimal whole fraction exponent e hwhole hfraction hne hexponent =>
    by_cases hnil : whole = []
    · have hfraction : fraction ≠ [] := hne.resolve_left (absurd hnil)
      rw [hnil, fractionText, if_neg hfraction]
      exact .inr ⟨fraction ++ exponent, rfl⟩
    · exact .inl ⟨⟨whole, fraction, none⟩, exponent, ⟨hnil, hwhole, hfraction⟩, .of_exponent hexponent,
        rfl⟩

/-! ### Numbers are quiet -/

/-- The text is empty or starts with what can be next to a character of a number. -/
def Follows (cs : List Char) : Prop := ∀ c rest, cs = c :: rest → c ∈ nextChars

namespace Quiet
variable {cs behind : List Char}

theorem step {c : Char} (hc : c ∈ figureChars ++ markLetters) (h : Quiet behind)
    (hnext : Follows behind) : Quiet (c :: behind) := by
  obtain ⟨⟨-, -, -, -, hrule⟩, hlast, hpair⟩ := literalChars_facts c hc
  refine .cons hrule ?_ h
  cases behind with
  | nil => exact hlast
  | cons d behind =>
    rcases Bool.or_eq_true_iff.1 hpair with hopens | hpair
    · exact startsPhrase_append hopens (d :: behind)
    · have hopens := List.all_eq_true.1 hpair d (hnext d behind rfl)
      exact startsPhrase_append hopens behind

theorem figures (hcs : ∀ c ∈ cs, c ∈ figureChars) (h : Quiet behind) (hnext : Follows behind) :
    Quiet (cs ++ behind) ∧ Follows (cs ++ behind) := by
  induction cs with
  | nil => exact ⟨h, hnext⟩
  | cons c cs ih =>
    have hc := hcs c (List.mem_cons_self ..)
    obtain ⟨hquiet, hfollows⟩ := ih fun x hx => hcs x (List.mem_cons_of_mem _ hx)
    refine ⟨.step (List.mem_append_left _ hc) hquiet hfollows, fun d rest heq => ?_⟩
    exact (List.cons.inj heq).1 ▸ List.mem_append_left _ hc

end Quiet

section
variable {n behind : List Char} {x : Float}

theorem mem_figureChars_of_decimal {c : Char} (h : c.isDigit = true ∨ c ∈ Token.decimalMarks) :
    c ∈ figureChars := by
  have hmarks : ∀ c ∈ Token.decimalMarks, c ∈ figureChars :=
    List.all_iff_forall_prop.1 (by decide)
  exact h.elim mem_figureChars_of_isDigit (hmarks c)

theorem quiet_literal (h : Literal n x) (hbehind : Quiet behind) (hnext : Follows behind) :
    Quiet (n ++ behind) := by
  cases h with
  | @radix marker base isDigit m run hradix hm hne hrun =>
    obtain ⟨hquiet, hfollows⟩ := Quiet.figures (fun c hc =>
      mem_figureChars_of_isHexDigit (isHexDigit_of_radix hradix (hrun c hc))) hbehind hnext
    have hzero : ∀ c ∈ ['0'], c ∈ amountChars :=
      List.forall_mem_singleton.2 (mem_amountChars_of_isDigit rfl)
    have hmark := Quiet.step (List.mem_append_right _ (mem_markLetters hradix hm)) hquiet hfollows
    show Quiet (['0'] ++ m :: (run ++ behind))
    exact hmark.append hzero
  | decimal hwhole hfraction hne hexponent =>
    refine (Quiet.figures (fun c hc => mem_figureChars_of_decimal ?_) hbehind hnext).1
    exact Literal.decimal_mem hwhole hfraction hexponent hc

theorem mem_literalChars (h : Literal n x) {c : Char} (hc : c ∈ n) :
    c ∈ figureChars ++ markLetters := by
  cases h with
  | radix hradix hm _ hrun =>
    rcases List.mem_cons.1 hc with rfl | hc
    · exact List.mem_append_left _ (mem_figureChars_of_isDigit rfl)
    · rcases List.mem_cons.1 hc with rfl | hc
      · exact List.mem_append_right _ (mem_markLetters hradix hm)
      · exact List.mem_append_left _
          (mem_figureChars_of_isHexDigit (isHexDigit_of_radix hradix (hrun c hc)))
  | decimal hwhole hfraction hne hexponent =>
    exact List.mem_append_left _
      (mem_figureChars_of_decimal (Literal.decimal_mem hwhole hfraction hexponent hc))

end

/-! ### Symbols -/

theorem normalizeNumbers_english {cs : List Char} (h : ',' ∉ cs) :
    normalizeNumbers .english cs = cs := by
  have hplain : ∀ ds : List Char, ',' ∉ ds → plainNumber .english ds = ds := by
    intro ds hds
    have hfilter : ds.filter (· != ',') = ds :=
      List.filter_eq_self.2 fun c hc => bne_iff_ne.2 fun heq => hds (heq ▸ hc)
    have hmark : Locale.english.decimalSeparator = '.' := rfl
    unfold plainNumber
    dsimp only
    rw [if_pos hmark, hfilter, ite_self]
  have hidle : Idle (punctuated .english) cs := by
    intro before c rest hsuffix s hs
    rw [punctuated_spec hs]
    refine hplain _ fun hmem => h (hsuffix.subset ?_)
    exact (List.mem_cons.1 hmem).elim (fun heq => heq ▸ List.mem_cons_self ..)
      fun hmem => List.mem_cons_of_mem _ (List.mem_of_mem_take hmem)
  have hblank : isBlank Locale.english.groupSeparator = false := rfl
  rw [normalizeNumbers, hblank, if_neg Bool.false_ne_true, hidle.sweep_eq]

theorem isPrefixOf_eq_false (rest : List Char) : ∀ {ps start : List Char},
    (ps.zip start).any (fun e => e.1 != e.2) = true → ps.isPrefixOf (start ++ rest) = false
  | [], _, h => by cases h
  | _ :: _, [], h => by cases h
  | p :: ps, c :: start, h => by
    rw [List.zip_cons_cons, List.any_cons, Bool.or_eq_true_iff] at h
    rw [List.cons_append, List.isPrefixOf_cons_cons, Bool.and_eq_false_iff]
    rcases h with hp | h
    · exact .inl (beq_eq_false_iff_ne.2 (bne_iff_ne.1 hp))
    · exact .inr (isPrefixOf_eq_false rest h)

/-- No scale word is behind the digits of a number. -/
theorem scaleAt_tail {cs : List Char} (h : Tail cs) : scaleAt cs = [] := by
  have hwords : ∀ m ∈ markLetters, isBlank m = false ∧ figureChars.all (fun d =>
      amountScales.all fun w => (w.toList.zip [m, d]).any fun e => e.1 != e.2) = true :=
    List.all_iff_forall_prop.1 (by decide)
  have hpair : ∀ m ∈ markLetters, ∀ d ∈ figureChars, ∀ rest, scaleAt (m :: d :: rest) = [] := by
    intro m hm d hd rest
    obtain ⟨hblank, hall⟩ := hwords m hm
    have hnone : amountScales.find? (fun w => w.toList.isPrefixOf (m :: d :: rest) &&
        closesWord ((m :: d :: rest).drop w.length)) = none := by
      refine List.find?_eq_none.2 fun w hw => ?_
      have hstart : w.toList.isPrefixOf ([m, d] ++ rest) = false :=
        isPrefixOf_eq_false rest (List.all_eq_true.1 (List.all_eq_true.1 hall d hd) w hw)
      rw [List.cons_append, List.cons_append, List.nil_append] at hstart
      rw [hstart, Bool.false_and]
      exact Bool.false_ne_true
    rw [scaleAt, List.dropWhile_cons_of_neg (by simp [hblank]), hnone]
  cases h with
  | nil => decide
  | @run m run hm hne hrun =>
    cases run with
    | nil => exact absurd rfl hne
    | cons d run =>
      exact hpair m hm d (mem_figureChars_of_isHexDigit (hrun d (List.mem_cons_self ..))) run
  | @signed m sign run hm hsign =>
    refine hpair m hm sign ?_ run
    rcases hsign with rfl | rfl <;> decide

/-- The code is behind the text, from which blanks at its end may be left out. -/
def Coded (code : String) (cs ds : List Char) : Prop :=
  ∃ amount blanks, cs = amount ++ blanks ∧ (∀ b ∈ blanks, isBlank b = true) ∧
    ds = amount ++ ' ' :: code.toList

theorem Coded.append {code : String} {cs ds : List Char} (h : Coded code cs ds) (pre : List Char) :
    Coded code (pre ++ cs) (pre ++ ds) := by
  obtain ⟨amount, blanks, rfl, hblanks, rfl⟩ := h
  exact ⟨pre ++ amount, blanks, (List.append_assoc ..).symm, hblanks, (List.append_assoc ..).symm⟩

section
variable {symbol : Char} {code : String} (hsymbol : ofSymbol? symbol = some code)
include hsymbol

theorem isDecimal_of_ofSymbol? : isDecimal symbol = false :=
  (leadChars_facts symbol (mem_leadChars_of_ofSymbol? hsymbol)).2.1

theorem ends_code (pre post : List Char) : (code.toList ++ post).head?.any isBlank = false ∧
    (pre ++ code.toList).getLast?.any isBlank = false := by
  have hcodes : ∀ e ∈ Currency.symbols, e.2.toList ≠ [] ∧ e.2.toList.all (fun c => !isBlank c) = true :=
    List.all_iff_forall_prop.1 (by decide)
  obtain ⟨e, he, -, rfl⟩ := exists_of_ofSymbol? hsymbol
  obtain ⟨hne, hall⟩ := hcodes e he
  have hblank : ∀ c ∈ e.2.toList, isBlank c = false := fun c hc => by
    simpa using List.all_eq_true.1 hall c hc
  rw [List.head?_append_of_ne_nil _ hne, List.head?_eq_some_head hne,
    List.getLast?_append_of_ne_nil _ hne, List.getLast?_eq_some_getLast hne]
  exact ⟨hblank _ (List.head_mem _), hblank _ (List.getLast_mem _)⟩

/-- A symbol on its own becomes its code between blanks. -/
theorem sweep_symbolAlone {pre post : List Char} (hpre : NoSymbol pre) (hpost : NoSymbol post) :
    sweep symbolAlone (pre ++ symbol :: post) = pre ++ (' ' :: (code.toList ++ [' ']) ++ post) := by
  refine sweep_append (fun c hc before cs => ?_) fun before _ => ?_
  · rw [symbolAlone, hpre c hc]
    rfl
  · have hfires : symbolAlone before symbol ([] ++ post) =
        some ⟨([] : List Char).length, ' ' :: (code.toList ++ [' '])⟩ := by
      rw [symbolAlone, hsymbol]
      rfl
    exact sweepFrom_once hfires (idle_symbolAlone hpost)

theorem sweepFrom_symbolAfter_last (before : Option Char) (ds : List Char) :
    (ds = [] → sweepFrom symbolAfter before ds [] = []) ∧
      ∀ us, ds = us ++ [symbol] → NoSymbol us → sweepFrom symbolAfter before ds [] = ds ∨
        Coded code us (sweepFrom symbolAfter before ds []) := by
  refine sweepFrom_induct (motive := fun _ ds es => (ds = [] → es = []) ∧
    ∀ us, ds = us ++ [symbol] → NoSymbol us → es = ds ∨ Coded code us es) ?nil ?keep ?fire before ds
  case nil =>
    exact fun _ => ⟨fun _ => rfl, fun us h => absurd h.symm (List.append_ne_nil_of_right_ne_nil us
      (List.cons_ne_nil _ _))⟩
  case keep =>
    rintro - c ds es - ⟨hnil, ih⟩
    refine ⟨fun h => absurd h (List.cons_ne_nil _ _), fun us hus hno => ?_⟩
    cases us with
    | nil =>
      obtain ⟨rfl, rfl⟩ := List.cons.inj hus
      exact .inl (by rw [hnil rfl])
    | cons u us =>
      obtain ⟨rfl, rfl⟩ := List.cons.inj hus
      exact (ih us rfl fun x hx => hno x (List.mem_cons_of_mem _ hx)).imp (congrArg _) (·.append [c])
  case fire =>
    rintro before c ds s es hrule ⟨hnil, ih⟩
    refine ⟨fun h => absurd h (List.cons_ne_nil _ _), fun us hus hno => ?_⟩
    have hsplit : (c :: ds.take s.more) ++ ds.drop s.more = us ++ [symbol] := by
      rw [List.cons_append, List.take_append_drop, hus]
    -- the symbol ends the stretch of the rule, or what is left behind it
    rcases List.eq_nil_or_concat (ds.drop s.more) with hleft | ⟨left, y, hleft⟩
    · rw [hleft, List.append_nil] at hsplit
      rw [hnil hleft, List.append_nil, hus]
      rcases symbolAfter_spec hrule with hkept | ⟨amount, blanks, x, other, hother, hblanks, htaken, hwritten⟩
      · exact .inl (hkept.trans hsplit)
      · rw [htaken, ← List.append_assoc] at hsplit
        obtain ⟨rfl, hlast⟩ := List.append_inj' hsplit rfl
        cases hlast
        cases hother.symm.trans hsymbol
        exact .inr ⟨amount, blanks, rfl, hblanks, hwritten⟩
    · rw [hleft, List.concat_eq_append, ← List.append_assoc] at hsplit
      obtain ⟨rfl, hlast⟩ := List.append_inj' hsplit rfl
      cases hlast
      rcases symbolAfter_spec hrule with hkept | ⟨amount, blanks, x, other, hother, -, htaken, -⟩
      · rw [hkept]
        refine (ih left (by rw [hleft, List.concat_eq_append])
          fun z hz => hno z (List.mem_append_right _ hz)).imp (fun heq => ?_) (·.append _)
        rw [heq, List.cons_append, List.take_append_drop]
      · have hx : x ∈ c :: ds.take s.more := by
          rw [htaken]
          simp
        cases (hno x (List.mem_append_left _ hx)).symm.trans hother

/-- A symbol at the end of a text without others is left, or taken by the amount in front of it. -/
theorem sweep_symbolAfter_last {cs : List Char} (hcs : NoSymbol cs) :
    sweep symbolAfter (cs ++ [symbol]) = cs ++ [symbol] ∨
      Coded code cs (sweep symbolAfter (cs ++ [symbol])) :=
  (sweepFrom_symbolAfter_last hsymbol none (cs ++ [symbol])).2 cs rfl hcs

end

/-! ### Normal forms -/

theorem normalize_english {cs : List Char} (h : Quiet cs) (hcomma : ',' ∉ cs)
    (hfirst : cs.head?.any isBlank = false) (hlast : cs.getLast?.any isBlank = false) :
    normalize .english cs = Text.trim (replaceSymbols cs) := by
  rw [normalize_quiet .english h (trim_eq hfirst hlast), normalizeNumbers_english hcomma]

section
variable {n : List Char} {x : Float} (hn : Literal n x)
include hn

theorem literal_facts {c : Char} (hc : c ∈ n) : isBlank c = false ∧ c ≠ ',' ∧ ofSymbol? c = none :=
  have hfacts := (literalChars_facts c (mem_literalChars hn hc)).1
  ⟨hfacts.1, hfacts.2.1, hfacts.2.2.1⟩

theorem noSymbol_literal : NoSymbol n := fun _ hc => (literal_facts hn hc).2.2

theorem comma_not_mem : ',' ∉ n := fun hc => (literal_facts hn hc).2.1 rfl

theorem literal_ne_nil : n ≠ [] := by
  rcases exists_parts hn with ⟨w, tail, hw, -, rfl⟩ | ⟨cs, rfl⟩
  · exact List.append_ne_nil_of_left_ne_nil (List.append_ne_nil_of_left_ne_nil hw.nonempty _) _
  · exact List.cons_ne_nil _ _

theorem first_literal (rest : List Char) : (n ++ rest).head?.any isBlank = false := by
  rw [List.head?_append_of_ne_nil _ (literal_ne_nil hn), List.head?_eq_some_head (literal_ne_nil hn)]
  exact (literal_facts hn (List.head_mem _)).1

theorem last_literal (pre : List Char) : (pre ++ n).getLast?.any isBlank = false := by
  rw [List.getLast?_append_of_ne_nil _ (literal_ne_nil hn),
    List.getLast?_eq_some_getLast (literal_ne_nil hn)]
  exact (literal_facts hn (List.getLast_mem _)).1

variable {symbol : Char} {code : String} (hsymbol : ofSymbol? symbol = some code)
include hsymbol

theorem normalize_code : normalize .english (n ++ ' ' :: code.toList) = n ++ ' ' :: code.toList := by
  have htrailer := trailer_code hsymbol
  have hquiet := quiet_literal hn htrailer.quiet fun c rest heq =>
    (List.cons.inj heq).1 ▸ List.mem_append_right _ (List.mem_cons_self ..)
  have hcomma : ',' ∉ n ++ ' ' :: code.toList := fun hc =>
    (List.mem_append.1 hc).elim (comma_not_mem hn) htrailer.behind.comma
  have hlast : (n ++ ' ' :: code.toList).getLast?.any isBlank = false := by
    rw [List.getLast?_append_of_ne_nil _ (List.cons_ne_nil _ _)]
    exact htrailer.last
  have hno := (noSymbol_literal hn).append (.code hsymbol)
  rw [normalize_english hquiet hcomma (first_literal hn _) hlast, replaceSymbols_eq hno,
    trim_eq (first_literal hn _) hlast]

variable {gap : List Char} (hgap : ∀ c ∈ gap, c = ' ')
include hgap

omit hn in
/-- What stands between a number and a symbol, and the symbol. -/
theorem mem_gap {c : Char} (hc : c = symbol ∨ c ∈ gap) :
    c ∈ amountChars ∧ c ∈ nextChars ∧ c ≠ ',' := by
  rcases hc with rfl | hc
  · have hlead := mem_leadChars_of_ofSymbol? hsymbol
    obtain ⟨e, he, hsign, -⟩ := exists_of_ofSymbol? hsymbol
    refine ⟨(leadChars_facts c hlead).2.2.2.2, ?_, fun heq => ?_⟩
    · exact List.mem_append_right _ (List.mem_cons_of_mem _ (List.mem_map.2 ⟨e, he, hsign⟩))
    · rw [heq] at hsymbol
      cases hsymbol
  · rw [hgap c hc]
    exact ⟨by decide, List.mem_append_right _ (List.mem_cons_self ..), by decide⟩

/-- The code is behind the number, be it by the amount in front of the symbol or on its own. -/
theorem replaceSymbols_last : ∃ blanks post, blanks ≠ [] ∧ (∀ b ∈ blanks, isBlank b = true) ∧
    (∀ b ∈ post, isBlank b = true) ∧
      replaceSymbols (n ++ gap ++ [symbol]) = n ++ (blanks ++ code.toList) ++ post := by
  have hspaces : ∀ c ∈ gap, isBlank c = true := fun c hc => hgap c hc ▸ rfl
  have hspace : ∀ c ∈ [' '], isBlank c = true := List.forall_mem_singleton.2 rfl
  have hno : NoSymbol (n ++ gap) := (noSymbol_literal hn).append fun c hc => hgap c hc ▸ rfl
  rw [replaceSymbols, (idle_symbolBefore_last hno hsymbol).sweep_eq]
  rcases sweep_symbolAfter_last hsymbol hno with hkept | ⟨amount, blanks, hsplit, hblanks, hcoded⟩
  · refine ⟨gap ++ [' '], [' '], List.append_ne_nil_of_right_ne_nil _ (List.cons_ne_nil _ _),
      List.forall_mem_append.2 ⟨hspaces, hspace⟩, hspace, ?_⟩
    rw [hkept, sweep_symbolAlone hsymbol hno .nil]
    simp
  · -- what is left out of the text in front of the code is a part of the gap
    obtain ⟨more, hmore, rfl⟩ : ∃ more, (∀ b ∈ more, isBlank b = true) ∧ amount = n ++ more := by
      rcases List.append_eq_append_iff.1 hsplit with ⟨more, rfl, rfl⟩ | ⟨more, rfl, rfl⟩
      · exact ⟨more, fun b hb => hspaces b (List.mem_append_left _ hb), rfl⟩
      · have hnil : more = [] := List.eq_nil_iff_forall_not_mem.2 fun c hc => by
          have hblank := hblanks c (List.mem_append_left _ hc)
          rw [(literal_facts hn (List.mem_append_right _ hc)).1] at hblank
          cases hblank
        exact ⟨[], List.forall_mem_nil _, by rw [hnil, List.append_nil, List.append_nil]⟩
    have hcodeless : NoSymbol (n ++ more ++ ' ' :: code.toList) :=
      NoSymbol.append (fun c hc => hno c (hsplit ▸ List.mem_append_left _ hc)) (.code hsymbol)
    refine ⟨more ++ [' '], [], List.append_ne_nil_of_right_ne_nil _ (List.cons_ne_nil _ _),
      List.forall_mem_append.2 ⟨hmore, hspace⟩, List.forall_mem_nil _, ?_⟩
    rw [hcoded, (idle_symbolAlone hcodeless).sweep_eq]
    simp

/-- A number with a symbol behind it becomes the number with the code behind it. -/
theorem normalize_symbolAfter : ∃ blanks, blanks ≠ [] ∧ (∀ b ∈ blanks, isBlank b = true) ∧
    normalize .english (n ++ (gap ++ [symbol])) = n ++ (blanks ++ code.toList) := by
  have hbehind : ∀ c ∈ gap ++ [symbol], c = symbol ∨ c ∈ gap := fun c hc =>
    (List.mem_append.1 hc).symm.imp_left List.mem_singleton.1
  have hquiet : Quiet (n ++ (gap ++ [symbol])) := by
    have hnone := Quiet.nil.append fun c hc => (mem_gap hsymbol hgap (hbehind c hc)).1
    rw [List.append_nil] at hnone
    refine quiet_literal hn hnone fun c rest heq => (mem_gap hsymbol hgap (hbehind c ?_)).2.1
    rw [heq]
    exact List.mem_cons_self ..
  have hcomma : ',' ∉ n ++ (gap ++ [symbol]) := fun hc => (List.mem_append.1 hc).elim (comma_not_mem hn)
    fun hc => (mem_gap hsymbol hgap (hbehind _ hc)).2.2 rfl
  have hlast : (n ++ (gap ++ [symbol])).getLast?.any isBlank = false := by
    rw [← List.append_assoc, List.getLast?_concat]
    exact isBlank_of_ofSymbol? hsymbol
  obtain ⟨blanks, post, hne, hblanks, hpost, hwritten⟩ := replaceSymbols_last hn hsymbol hgap
  refine ⟨blanks, hne, hblanks, ?_⟩
  have hends : (n ++ (blanks ++ code.toList)).getLast?.any isBlank = false := by
    rw [← List.append_assoc]
    exact (ends_code hsymbol (n ++ blanks) []).2
  have htrim := trim_between (List.forall_mem_nil _) hpost (first_literal hn (blanks ++ code.toList)) hends
  rw [normalize_english hquiet hcomma (first_literal hn _) hlast, ← List.append_assoc, hwritten]
  exact htrim

/-- The normal form of a number behind a symbol is up to the rules for symbols. -/
theorem normalize_behind_symbol :
    normalize .english (symbol :: (gap ++ n)) = Text.trim (replaceSymbols (symbol :: (gap ++ n))) := by
  have hfront : ∀ c ∈ symbol :: gap, c = symbol ∨ c ∈ gap := fun c hc => List.mem_cons.1 hc
  have hquiet : Quiet (symbol :: gap ++ n) := by
    have hnumber := quiet_literal hn .nil fun _ _ heq => by cases heq
    rw [List.append_nil] at hnumber
    exact hnumber.append fun c hc => (mem_gap hsymbol hgap (hfront c hc)).1
  have hcomma : ',' ∉ symbol :: gap ++ n := fun hc => (List.mem_append.1 hc).elim
    (fun hc => (mem_gap hsymbol hgap (hfront _ hc)).2.2 rfl) (comma_not_mem hn)
  exact normalize_english hquiet hcomma (isBlank_of_ofSymbol? hsymbol) (last_literal hn (symbol :: gap))

/-- A symbol before digits with a fraction becomes the code behind these. -/
theorem normalize_symbolBefore {w : Written} {tail : List Char} (hw : w.Proper) (htail : Tail tail)
    (hparts : n = w.mantissa '.' ++ tail) : normalize .english (symbol :: (gap ++ n)) =
      w.mantissa '.' ++ (' ' :: code.toList ++ tail) := by
  have hspaces : ∀ c ∈ gap, isBlank c = true := fun c hc => hgap c hc ▸ rfl
  have hno : NoSymbol tail := fun c hc =>
    noSymbol_literal hn c (hparts ▸ List.mem_append_right _ hc)
  have hwritten := replaceSymbols_before hsymbol hw .nil hspaces htail.behind hno (scaleAt_tail htail)
  rw [List.nil_append, List.nil_append, ← hparts] at hwritten
  rw [normalize_behind_symbol hn hsymbol hgap, hwritten]
  have hne : w.mantissa '.' ≠ [] := List.append_ne_nil_of_left_ne_nil hw.nonempty _
  refine trim_eq ?first ?last
  case first =>
    rw [List.head?_append_of_ne_nil _ hne, List.head?_eq_some_head hne]
    exact (literal_facts hn (hparts ▸ List.mem_append_left _ (List.head_mem hne))).1
  case last =>
    by_cases hnil : tail = []
    · rw [hnil, List.append_nil, List.append_cons]
      exact (ends_code hsymbol _ []).2
    · rw [← List.append_assoc, List.getLast?_append_of_ne_nil _ hnil,
        List.getLast?_eq_some_getLast hnil]
      exact (literal_facts hn (hparts ▸ List.mem_append_right _ (List.getLast_mem hnil))).1

/-- A symbol before a point becomes the code in front of it. -/
theorem normalize_symbolBefore_point {cs : List Char} (hpoint : n = '.' :: cs) :
    normalize .english (symbol :: (gap ++ n)) = code.toList ++ (' ' :: gap ++ n) := by
  have hspaces : ∀ c ∈ gap, isBlank c = true := fun c hc => hgap c hc ▸ rfl
  have hno : NoSymbol (gap ++ n) :=
    NoSymbol.append (fun c hc => hgap c hc ▸ rfl) (noSymbol_literal hn)
  have hbefore : Idle symbolBefore (symbol :: (gap ++ n)) := by
    refine .of_none fun before c rest hsuffix => ?_
    rcases List.suffix_cons_iff.1 hsuffix with heq | hsuffix
    · obtain ⟨rfl, rfl⟩ := List.cons.inj heq
      have hdrop := (takeWhile_dropWhile_append hspaces fun x behind (heq : n = x :: behind) =>
        (literal_facts hn (heq ▸ List.mem_cons_self ..)).1).2
      have hnone : amountAt n = [] := by
        rw [hpoint]
        rfl
      rw [symbolBefore, hsymbol]
      dsimp only
      rw [hdrop, hnone, if_pos rfl]
    · rw [symbolBefore, hno c (hsuffix.subset (List.mem_cons_self ..))]
  have hafter : Idle symbolAfter (symbol :: (gap ++ n)) := by
    intro before c rest hsuffix s hs
    rcases List.suffix_cons_iff.1 hsuffix with heq | hsuffix
    · obtain ⟨rfl, rfl⟩ := List.cons.inj heq
      rw [symbolAfter, isDecimal_of_ofSymbol? hsymbol, if_neg Bool.false_ne_true] at hs
      cases hs
    · exact idle_symbolAfter hno before c rest hsuffix s hs
  have halone := sweep_symbolAlone hsymbol .nil hno
  rw [List.nil_append, List.nil_append] at halone
  have hspace : ∀ c ∈ [' '], isBlank c = true := List.forall_mem_singleton.2 rfl
  have hlast : (code.toList ++ (' ' :: gap ++ n)).getLast?.any isBlank = false := by
    rw [← List.append_assoc]
    exact last_literal hn _
  have htrim := trim_between hspace (List.forall_mem_nil _) (ends_code hsymbol [] _).1 hlast
  rw [List.append_nil] at htrim
  rw [normalize_behind_symbol hn hsymbol hgap, replaceSymbols, hbefore.sweep_eq, hafter.sweep_eq, halone,
    ← htrim]
  simp

end

end Reckoner.Spelling

import Mathlib.Data.Bool.AllAny
import Reckoner.Proofs.Thinning

/-!
# Texts that spelling rules leave alone

A rule is idle on a text if it writes only what is there already; a sweep with an idle rule keeps the
text (`Idle.sweep_eq`). On a text of digits, signs, parentheses and blanks all rules are idle, except
that a locale may join digits with a blank between them. Where digits are apart, bringing the text to
its normal form thus does no more than leave out blanks (`thins_normalize`).
-/

namespace Reckoner.Spelling

open Text (isBlank isDecimal Thins)

/-! ### One place after the other -/

/-- What holds of the empty text, and of a text whenever it holds of what is left behind the place that
the rule has passed over or rewritten, holds of every text and its sweep. -/
theorem sweepFrom_induct {rule : Rule} {motive : Option Char → List Char → List Char → Prop}
    (nil : ∀ before, motive before [] [])
    (keep : ∀ before c cs ds, rule before c cs = none → motive (some c) cs ds →
      motive before (c :: cs) (c :: ds))
    (fire : ∀ before c cs s ds, rule before c cs = some s →
      motive (some (lastChar c cs s.more)) (cs.drop s.more) ds →
        motive before (c :: cs) (s.replacement ++ ds))
    (before : Option Char) (cs : List Char) :
    motive before cs (sweepFrom rule before cs []) := by
  induction hn : cs.length using Nat.strongRecOn generalizing before cs with
  | ind n ih =>
    cases cs with
    | nil =>
      rw [sweepFrom_nil]
      exact nil before
    | cons c rest =>
      rw [List.length_cons] at hn
      rw [sweepFrom_cons]
      cases hrule : rule before c rest with
      | none => exact keep before c rest _ hrule (ih rest.length (by omega) _ rest rfl)
      | some s =>
        have hdrop : (rest.drop s.more).length < n := by
          rw [List.length_drop]
          omega
        exact fire before c rest s _ hrule (ih _ hdrop _ _ rfl)

/-! ### Idle rules -/

/-- Where the rule fires in the text, it writes what is there. -/
def Idle (rule : Rule) (cs : List Char) : Prop :=
  ∀ before c rest, c :: rest <:+ cs → ∀ s, rule before c rest = some s →
    s.replacement = c :: rest.take s.more

theorem Idle.of_none {rule : Rule} {cs : List Char}
    (h : ∀ before c rest, c :: rest <:+ cs → rule before c rest = none) : Idle rule cs :=
  fun before c rest hsuffix _ hs => nomatch (h before c rest hsuffix).symm.trans hs

theorem Idle.sweepFrom_eq {rule : Rule} {cs : List Char} (h : Idle rule cs) (before : Option Char)
    {ds : List Char} (hds : ds <:+ cs) : sweepFrom rule before ds [] = ds := by
  refine sweepFrom_induct (motive := fun _ ds es => ds <:+ cs → es = ds) (fun _ _ => rfl) ?keep ?fire
    before ds hds
  case keep =>
    intro _ c rest _ _ ih hsuffix
    rw [ih ((List.suffix_cons c rest).trans hsuffix)]
  case fire =>
    intro before c rest s _ hrule ih hsuffix
    have hrest : rest <:+ cs := (List.suffix_cons c rest).trans hsuffix
    rw [h before c rest hsuffix s hrule, ih ((List.drop_suffix s.more rest).trans hrest),
      List.cons_append, List.take_append_drop]

theorem Idle.sweep_eq {rule : Rule} {cs : List Char} (h : Idle rule cs) : sweep rule cs = cs :=
  h.sweepFrom_eq none List.suffix_rfl

/-! ### Plain characters -/

/-- What is decided over the ASCII code points holds of the ASCII characters. -/
theorem of_ascii {P : Char → Prop} (h : ∀ n < 128, P (Char.ofNat n)) {c : Char}
    (hc : c.toNat < 128) : P c := by
  have hp := h c.toNat hc
  rwa [Char.ofNat_toNat] at hp

theorem toNat_lt_of_le {c d : Char} (hd : d.toNat < 128) (h : c ≤ d) : c.toNat < 128 :=
  Nat.lt_of_le_of_lt h hd

/-- Only ASCII characters have ASCII lower-case forms. -/
theorem toNat_lt_of_toLower {c : Char} (h : c.toLower.toNat < 128) : c.toNat < 128 := by
  by_contra hle
  have hsame : c.toLower = c := dif_neg fun hupper =>
    hle (toNat_lt_of_le (d := 'Z') (by decide) hupper.2)
  exact hle (hsame ▸ h)

/-- The code points of blanks. -/
def blankCodes : List Nat :=
  [9, 10, 11, 12, 13, 0x20, 0x85, 0xA0, 0x1680, 0x2000, 0x2001, 0x2002, 0x2003, 0x2004, 0x2005,
    0x2006, 0x2007, 0x2008, 0x2009, 0x200A, 0x2028, 0x2029, 0x202F, 0x205F, 0x3000]

/-- The characters of formulas and the blanks. -/
def plainChars : List Char :=
  ['0', '1', '2', '3', '4', '5', '6', '7', '8', '9', '+', '-', '*', '/', '^', '(', ')'] ++
    blankCodes.map Char.ofNat

/-- The text has digits, signs of operators, parentheses and blanks only. -/
def Plain (cs : List Char) : Prop := ∀ c ∈ cs, c ∈ plainChars

theorem mem_blankChars {c : Char} (h : isBlank c = true) : c ∈ blankCodes.map Char.ofNat := by
  have hcode : c.toNat ∈ blankCodes := by
    simp only [isBlank, Bool.or_eq_true, Bool.and_eq_true, beq_iff_eq, decide_eq_true_eq] at h
    simp only [blankCodes, List.mem_cons, List.not_mem_nil, or_false]
    omega
  have hc := List.mem_map_of_mem (f := Char.ofNat) hcode
  rwa [Char.ofNat_toNat] at hc

theorem mem_plainChars_of_isBlank {c : Char} (h : isBlank c = true) : c ∈ plainChars :=
  List.mem_append_right _ (mem_blankChars h)

/-- The ASCII digits. -/
def digitChars : List Char := ['0', '1', '2', '3', '4', '5', '6', '7', '8', '9']

theorem mem_digitChars {c : Char} (h : c.isDigit = true) : c ∈ digitChars :=
  of_ascii (P := fun c => c.isDigit = true → c ∈ digitChars) (by decide)
    (toNat_lt_of_le (d := '9') (by decide) (of_decide_eq_true (Bool.and_eq_true_iff.1 h).2)) h

theorem mem_plainChars_of_isDigit {c : Char} (h : c.isDigit = true) : c ∈ plainChars := by
  have hdigits : ∀ x ∈ digitChars, x ∈ plainChars := List.all_iff_forall_prop.1 (by decide)
  exact hdigits c (mem_digitChars h)

/-- What the rules ask of a character, asked of the plain ones together. -/
theorem plainChars_facts : ∀ c ∈ plainChars, isDecimal c = c.isDigit ∧
    (c.isDigit = true → isBlank c = false) ∧ Currency.ofSymbol? c = none ∧ plainSign c = c :=
  List.all_iff_forall_prop.1 (by decide)

theorem isDecimal_plain : ∀ c ∈ plainChars, isDecimal c = c.isDigit :=
  fun c hc => (plainChars_facts c hc).1

theorem not_isBlank_of_isDigit {c : Char} (h : c.isDigit = true) : isBlank c = false :=
  (plainChars_facts c (mem_plainChars_of_isDigit h)).2.1 h

theorem ofSymbol?_plain : ∀ c ∈ plainChars, Currency.ofSymbol? c = none :=
  fun c hc => (plainChars_facts c hc).2.2.1

theorem plainSign_plain : ∀ c ∈ plainChars, plainSign c = c :=
  fun c hc => (plainChars_facts c hc).2.2.2

theorem not_mem_plainChars : ∀ c ∈ ['_', '#', '.', ',', degreeSign], c ∉ plainChars :=
  List.all_iff_forall_prop.1 (by decide)

namespace Plain
variable {cs ds : List Char}

theorem thins (h : Plain cs) (hthins : Thins cs ds) : Plain ds := fun c hc => h c (hthins.subset hc)

theorem suffix (h : Plain cs) (hds : ds <:+ cs) : Plain ds := fun c hc => h c (hds.subset hc)

theorem head {c : Char} (h : Plain (c :: cs)) : c ∈ plainChars := h c (List.mem_cons_self ..)

theorem tail {c : Char} (h : Plain (c :: cs)) : Plain cs := fun x hx => h x (List.mem_cons_of_mem _ hx)

theorem not_mem {c : Char} (h : Plain cs) (hc : c ∈ ['_', '#', '.', ',', degreeSign]) : c ∉ cs :=
  fun hmem => not_mem_plainChars c hc (h c hmem)

theorem map_plainSign (h : Plain cs) : cs.map plainSign = cs :=
  (List.map_congr_left fun c hc => plainSign_plain c (h c hc)).trans (List.map_id _)

end Plain

/-! ### Words and signs -/

/-- Whether a word for a number or for an operator starts the text. -/
def startsPhrase (cs : List Char) : Bool :=
  numberWords.any (fun e => (afterPhrase? isEitherCase [e.1] cs).isSome) ||
    operatorWords.any fun e => (afterPhrase? foldsTo e.1 cs).isSome

/-- Whether the word and the start of a text differ in one of their letters. -/
def mismatch (same : Char → Char → Bool) (w : String) (start : List Char) : Bool :=
  (w.toList.zip start).any fun e => !same e.1 e.2

/-- Whether no word for a number or an operator starts like this. -/
def opensNoPhrase (start : List Char) : Bool :=
  numberWords.all (fun e => mismatch isEitherCase e.1 start) &&
    operatorWords.all fun e => e.1.head?.any (mismatch foldsTo · start)

theorem afterWord?_eq_none {same : Char → Char → Bool} (rest : List Char) :
    ∀ {ps start : List Char}, (ps.zip start).any (fun e => !same e.1 e.2) = true →
      afterWord? same ps (start ++ rest) = none
  | [], _, h => nomatch h
  | _ :: _, [], h => nomatch h
  | p :: ps, c :: start, h => by
    rw [List.zip_cons_cons, List.any_cons] at h
    rw [List.cons_append, afterWord?]
    cases hp : same p c with
    | false => rfl
    | true =>
      rw [hp] at h
      exact afterWord?_eq_none rest h

theorem afterPhrase?_eq_none {same : Char → Char → Bool} {ws : List String} {start : List Char}
    (h : ws.head?.any (mismatch same · start) = true) (rest : List Char) :
    afterPhrase? same ws (start ++ rest) = none := by
  cases ws with
  | nil => exact nomatch h
  | cons w ws =>
    have hword : afterWord? same w.toList (start ++ rest) = none := afterWord?_eq_none rest h
    cases ws with
    | nil => rw [afterPhrase?, hword]; rfl
    | cons w' ws => rw [afterPhrase?, hword]; exact nofun

theorem startsPhrase_append {start : List Char} (h : opensNoPhrase start = true)
    (rest : List Char) : startsPhrase (start ++ rest) = false := by
  obtain ⟨hnumber, hoperator⟩ := Bool.and_eq_true_iff.1 h
  refine Bool.or_eq_false_iff.2 ⟨?_, ?_⟩
  · refine List.any_eq_false.2 fun e he => ?_
    have hword : [e.1].head?.any (mismatch isEitherCase · start) = true :=
      List.all_eq_true.1 hnumber e he
    rw [afterPhrase?_eq_none hword]
    exact Bool.false_ne_true
  · refine List.any_eq_false.2 fun e he => ?_
    rw [afterPhrase?_eq_none (List.all_eq_true.1 hoperator e he)]
    exact Bool.false_ne_true

theorem opensNoPhrase_plain : ∀ c ∈ plainChars, opensNoPhrase [c] = true :=
  List.all_iff_forall_prop.1 (by decide)

theorem startsPhrase_nil : startsPhrase [] = false := by decide

theorem Plain.startsPhrase_eq {ds : List Char} (h : Plain ds) : startsPhrase ds = false := by
  cases ds with
  | nil => exact startsPhrase_nil
  | cons c rest => exact startsPhrase_append (opensNoPhrase_plain c h.head) rest

theorem phraseLength?_eq_none {same : Char → Char → Bool} {ws : List String} {cs : List Char}
    (h : (afterPhrase? same ws cs).isSome = false) (before : Option Char) :
    phraseLength? same ws before cs = none := by
  rw [phraseLength?, Option.isSome_eq_false_iff.1 h |> Option.isNone_iff_eq_none.1]
  exact ite_self none

/-- The words for operators are passed over together if each of them is. -/
theorem replaceOperatorWords_of_sweep {cs : List Char}
    (h : ∀ ws sign, (ws, sign) ∈ operatorWords → sweep (operatorWord ws sign) cs = cs) :
    replaceOperatorWords cs = cs := by
  have hfold : ∀ es : List (List String × Char), (∀ e ∈ es, e ∈ operatorWords) →
      es.foldl (fun cs e => sweep (operatorWord e.1 e.2) cs) cs = cs := by
    intro es
    induction es with
    | nil => exact fun _ => rfl
    | cons e es ih =>
      intro hes
      rw [List.foldl_cons, h e.1 e.2 (hes e (List.mem_cons_self ..))]
      exact ih fun e he => hes e (List.mem_cons_of_mem _ he)
  exact hfold operatorWords fun _ he => he

section
variable {cs : List Char} (h : ∀ ds, ds <:+ cs → startsPhrase ds = false)
include h

theorem idle_numberWord : Idle numberWord cs := by
  refine .of_none fun before c rest hsuffix => List.findSome?_eq_none_iff.2 ?_
  rintro ⟨w, n⟩ he
  have hnumber := (Bool.or_eq_false_iff.1 (h _ hsuffix)).1
  have hword := Bool.eq_false_iff.2 (List.any_eq_false.1 hnumber (w, n) he)
  show (phraseLength? isEitherCase [w] before (c :: rest)).map _ = none
  rw [phraseLength?_eq_none hword]
  rfl

theorem idle_operatorWord {ws : List String} {sign : Char} (he : (ws, sign) ∈ operatorWords) :
    Idle (operatorWord ws sign) cs := by
  refine .of_none fun before c rest hsuffix => ?_
  have hoperator := (Bool.or_eq_false_iff.1 (h _ hsuffix)).2
  have hwords := Bool.eq_false_iff.2 (List.any_eq_false.1 hoperator (ws, sign) he)
  rw [operatorWord, phraseLength?_eq_none hwords]
  rfl

theorem replaceOperatorWords_eq : replaceOperatorWords cs = cs :=
  replaceOperatorWords_of_sweep fun _ _ he => (idle_operatorWord h he).sweep_eq

end

section
variable {cs : List Char}

theorem ne_of_suffix {c x : Char} {rest : List Char} (h : x ∉ cs) (hsuffix : c :: rest <:+ cs) :
    c ≠ x := fun hc => h (hc ▸ hsuffix.subset (List.mem_cons_self ..))

theorem replaceDegrees_eq (h : degreeSign ∉ cs) : replaceDegrees cs = cs := by
  have hscale : ∀ scale, Idle (degreeScale scale) cs := fun scale =>
    .of_none fun before c rest hsuffix => if_neg (ne_of_suffix h hsuffix)
  have halone : Idle degreeAlone cs :=
    .of_none fun before c rest hsuffix => if_neg (ne_of_suffix h hsuffix)
  rw [replaceDegrees, (hscale 'C').sweep_eq, (hscale 'F').sweep_eq, halone.sweep_eq]

theorem removeUnderscores_eq (h : '_' ∉ cs) : removeUnderscores cs = cs := by
  refine Idle.sweep_eq (.of_none fun before c rest hsuffix => ?_)
  have hgroups : underscoreGroups (rest.dropWhile isDecimal) = [] := by
    unfold underscoreGroups
    split
    · next tail heq =>
      have hmem : '_' ∈ rest := (List.dropWhile_suffix isDecimal).subset (heq ▸ List.mem_cons_self ..)
      exact absurd (hsuffix.subset (List.mem_cons_of_mem _ hmem)) h
    · rfl
  unfold underscored
  rw [hgroups]
  exact ite_self none

end

/-! ### Numbers -/

theorem take_length_takeWhile {α : Type} (p : α → Bool) (xs : List α) :
    xs.take (xs.takeWhile p).length = xs.takeWhile p :=
  (List.prefix_iff_eq_take.1 (List.takeWhile_prefix p)).symm

theorem mem_takeWhile {α : Type} {p : α → Bool} {xs : List α} {x : α} (h : x ∈ xs.takeWhile p) :
    p x = true := List.all_eq_true.1 List.all_takeWhile x h

theorem takeWhile_congr {α : Type} {p q : α → Bool} : ∀ {xs : List α}, (∀ x ∈ xs, p x = q x) →
    xs.takeWhile p = xs.takeWhile q
  | [], _ => rfl
  | x :: xs, h => by
    rw [List.takeWhile_cons, List.takeWhile_cons, h x (List.mem_cons_self ..),
      takeWhile_congr fun y hy => h y (List.mem_cons_of_mem _ hy)]

/-- A run of characters ends in front of another character. -/
theorem takeWhile_dropWhile_append {p : Char → Bool} {xs ys : List Char}
    (hxs : ∀ c ∈ xs, p c = true) (hys : ∀ c rest, ys = c :: rest → p c = false) :
    (xs ++ ys).takeWhile p = xs ∧ (xs ++ ys).dropWhile p = ys := by
  rw [List.takeWhile_append_of_pos hxs, List.dropWhile_append_of_pos hxs]
  cases ys with
  | nil => exact ⟨List.append_nil xs, rfl⟩
  | cons c rest =>
    rw [List.takeWhile_cons, List.dropWhile_cons, hys c rest rfl]
    exact ⟨List.append_nil xs, rfl⟩

theorem dropWhile_not_eq_self {α : Type} {p : α → Bool} {xs : List α} (h : ∀ x ∈ xs, p x = true) :
    xs.dropWhile (fun x => !p x) = xs := by
  cases xs with
  | nil => rfl
  | cons x xs =>
    rw [List.dropWhile_cons, h x (List.mem_cons_self ..)]
    rfl

/-- The last element of a run, with what is behind the run. -/
theorem exists_cons_dropWhile_suffix {α : Type} {p : α → Bool} {x : α} (hx : p x = true) :
    ∀ xs : List α, ∃ y, p y = true ∧ y :: xs.dropWhile p <:+ x :: xs
  | [] => ⟨x, hx, List.suffix_rfl⟩
  | x' :: xs => by
    rw [List.dropWhile_cons]
    split
    · next hx' =>
      obtain ⟨y, hy, hsuffix⟩ := exists_cons_dropWhile_suffix hx' xs
      exact ⟨y, hy, hsuffix.trans (List.suffix_cons ..)⟩
    · exact ⟨x, hx, List.suffix_rfl⟩

theorem isBlank_of_isGroupSpace {c : Char} (hc : isGroupSpace c = true) :
    Text.isBlank c = true := by
  simp only [isGroupSpace, Bool.or_eq_true, beq_iff_eq] at hc
  rcases hc with (rfl | hc) | hc
  · rfl
  · simp [Text.isBlank, hc]
  · simp [Text.isBlank, hc]

theorem plainNumber_eq (l : Locale) {cs : List Char} (h : ∀ c ∈ cs, isDecimal c = true) :
    plainNumber l cs = cs := by
  have hdrop : cs.dropWhile isDecimal = [] := by
    have hall := List.takeWhile_eq_self_iff.2 h
    have hsplit := List.takeWhile_append_dropWhile (p := isDecimal) (l := cs)
    rw [hall] at hsplit
    exact List.append_right_eq_self.1 hsplit
  have hgrouped : ∀ sep mark, isGrouped sep mark cs = false := by
    intro sep mark
    rw [isGrouped, hdrop]
    exact Bool.and_false _
  have hcomma : isCommaDecimal cs = false := by
    rw [isCommaDecimal, hdrop]
    exact Bool.and_false _
  unfold plainNumber
  simp [hgrouped, hcomma]

section
variable {cs : List Char}

theorem isNumberChar_eq {c : Char} (hpoint : c ≠ '.') (hcomma : c ≠ ',') :
    isNumberChar c = isDecimal c := by
  rw [isNumberChar, beq_false_of_ne hpoint, beq_false_of_ne hcomma, Bool.or_false, Bool.or_false]

theorem idle_punctuated (hpoint : '.' ∉ cs) (hcomma : ',' ∉ cs) (l : Locale) :
    Idle (punctuated l) cs := by
  intro before c rest hsuffix s hs
  have hrun : rest.takeWhile isNumberChar = rest.takeWhile isDecimal := by
    refine takeWhile_congr fun x hx => isNumberChar_eq ?_ ?_
    · exact fun h => hpoint (h ▸ hsuffix.subset (List.mem_cons_of_mem _ hx))
    · exact fun h => hcomma (h ▸ hsuffix.subset (List.mem_cons_of_mem _ hx))
  have hkeep : ((rest.takeWhile isDecimal).reverse.dropWhile fun x => !isDecimal x).reverse =
      rest.takeWhile isDecimal := by
    rw [dropWhile_not_eq_self fun x hx => mem_takeWhile (List.mem_reverse.1 hx),
      List.reverse_reverse]
  unfold punctuated at hs
  split at hs
  · next hc =>
    dsimp only at hs
    rw [hrun, hkeep] at hs
    split at hs
    · exact nomatch hs
    · cases hs
      dsimp only
      rw [take_length_takeWhile]
      refine plainNumber_eq l fun x hx => ?_
      rcases List.mem_cons.1 hx with rfl | hx
      · exact hc
      · exact mem_takeWhile hx
  · exact nomatch hs

theorem idle_symbolAfter (h : ∀ c ∈ cs, Currency.ofSymbol? c = none) : Idle symbolAfter cs := by
  intro before c rest hsuffix s hs
  unfold symbolAfter at hs
  split at hs
  · dsimp only at hs
    split at hs
    · next x tail heq =>
      have hx : Currency.ofSymbol? x = none := by
        refine h x (hsuffix.subset (List.mem_cons_of_mem _ ?_))
        have hmem := (List.dropWhile_suffix Text.isBlank).subset (heq ▸ List.mem_cons_self ..)
        exact List.mem_of_mem_drop hmem
      rw [hx] at hs
      cases hs
      rw [take_length_takeWhile]
    · cases hs
      rw [take_length_takeWhile]
  · exact nomatch hs

theorem idle_symbolBefore (h : ∀ c ∈ cs, Currency.ofSymbol? c = none) : Idle symbolBefore cs :=
  .of_none fun before c rest hsuffix => by
    rw [symbolBefore, h c (hsuffix.subset (List.mem_cons_self ..))]

theorem idle_symbolAlone (h : ∀ c ∈ cs, Currency.ofSymbol? c = none) : Idle symbolAlone cs :=
  .of_none fun before c rest hsuffix => by
    rw [symbolAlone, h c (hsuffix.subset (List.mem_cons_self ..))]
    rfl

theorem replaceSymbols_eq (h : ∀ c ∈ cs, Currency.ofSymbol? c = none) : replaceSymbols cs = cs := by
  rw [replaceSymbols, (idle_symbolBefore h).sweep_eq, (idle_symbolAfter h).sweep_eq,
    (idle_symbolAlone h).sweep_eq]

/-- Where no space of a number stands between two digits, there are no groups to join. -/
theorem idle_spaced (h : ∀ {a b c rest}, a :: b :: c :: rest <:+ cs → isDecimal a = true →
    isGroupSpace b = true → isDecimal c = false) : Idle spaced cs := by
  refine .of_none fun before c rest hsuffix => ?_
  have hgroups : isDecimal c = true → spacedGroups? (rest.dropWhile isDecimal) = none := by
    intro hc
    obtain ⟨d, hd, hlast⟩ := exists_cons_dropWhile_suffix hc rest
    have hrun := hlast.trans hsuffix
    unfold spacedGroups?
    split
    · next s x y z tail heq =>
      refine if_neg fun hif => ?_
      simp only [Bool.and_eq_true] at hif
      obtain ⟨⟨⟨hs, hx⟩, -⟩, -⟩ := hif
      rw [heq] at hrun
      exact nomatch (h hrun hd hs).symm.trans hx
    · rfl
  unfold spaced
  split
  · next hc =>
    rw [hgroups (Bool.and_eq_true_iff.1 hc).2]
    exact ite_self none
  · rfl

end

/-- Between two digits there is no single blank. -/
def Apart (cs : List Char) : Prop :=
  ∀ {a b c rest}, a :: b :: c :: rest <:+ cs → a.isDigit = true → Text.isBlank b = true →
    c.isDigit = false

theorem normalizeNumbers_eq {cs : List Char} (h : Plain cs) (l : Locale) (hapart : Apart cs) :
    normalizeNumbers l cs = cs := by
  have hspaced : Idle spaced cs := idle_spaced fun {a b c rest} hsuffix ha hb => by
    have hplain := h.suffix hsuffix
    rw [isDecimal_plain a hplain.head] at ha
    rw [isDecimal_plain c hplain.tail.tail.head]
    exact hapart hsuffix ha (isBlank_of_isGroupSpace hb)
  have hpunctuated : Idle (punctuated l) cs :=
    idle_punctuated (h.not_mem (by decide)) (h.not_mem (by decide)) l
  rw [normalizeNumbers, hspaced.sweep_eq, ite_self, hpunctuated.sweep_eq]

/-- The normal form of a plain text without slashes in a row is the text without some blanks, if the
digits are still apart when blanks are left out. -/
theorem thins_normalize (l : Locale) {cs : List Char} (h : Plain cs)
    (hslashes : ¬ ['/', '/'] <:+: cs) (hapart : ∀ ds, Thins cs ds → Apart ds) :
    Thins cs (normalize l cs) := by
  have hlines : Thins cs (Text.trim (removeComments cs)) := by
    rw [removeComments_eq hslashes (h.not_mem (by decide))]
    exact (Text.thins_joinLines cs).trans (Text.thins_trim _)
  have hplain := h.thins hlines
  have hphrases : ∀ ds, ds <:+ Text.trim (removeComments cs) → startsPhrase ds = false :=
    fun ds hds => (hplain.suffix hds).startsPhrase_eq
  unfold normalize
  dsimp only
  rw [hplain.map_plainSign, replaceNumberWords, (idle_numberWord hphrases).sweep_eq,
    replaceOperatorWords_eq hphrases, replaceDegrees_eq (hplain.not_mem (by decide)),
    removeUnderscores_eq (hplain.not_mem (by decide)),
    normalizeNumbers_eq hplain l (hapart _ hlines),
    replaceSymbols_eq fun c hc => ofSymbol?_plain c (hplain c hc)]
  exact hlines.trans (Text.thins_trim _)

end Reckoner.Spelling

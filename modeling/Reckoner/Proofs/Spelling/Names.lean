import Reckoner.Memory
import Reckoner.Proofs.Spelling.Stretches

/-!
# Names under the rules of spelling

Of all rules only those for words and for underscores between digits can fire in a name, and each of
them leaves fewer characters than it finds, blanks not counted. The normal form of a name is therefore
either the name (`normalize_eq_self`), where it is `Undisturbed`, or too short to hold the name
(`shorter_normalize`).
-/

namespace Reckoner.Spelling

open Text (isBlank isDecimal)

/-! ### Rules that shorten texts -/

/-- The rule fires nowhere in a text that stands behind the character `before`. -/
def StillFrom (rule : Rule) (before : Option Char) (cs : List Char) : Prop :=
  ∀ pre c rest, cs = pre ++ c :: rest → rule (pre.getLast?.or before) c rest = none

/-- The rule fires nowhere in the text. -/
def Still (rule : Rule) (cs : List Char) : Prop :=
  ∀ pre c rest, cs = pre ++ c :: rest → rule pre.getLast? c rest = none

/-- The text is kept, and `P` holds of it, or it loses characters. -/
def KeepsOrShortens (f : List Char → List Char) (P : List Char → Prop) : Prop :=
  ∀ cs, f cs = cs ∧ P cs ∨ Shorter cs (f cs)

section
variable {rule : Rule} {before : Option Char} {c : Char} {cs : List Char}

theorem stillFrom_none_iff : StillFrom rule none cs ↔ Still rule cs := by
  unfold StillFrom Still
  simp only [Option.or_none]

theorem getLast?_cons_or (c : Char) (pre : List Char) (before : Option Char) :
    (c :: pre).getLast?.or before = pre.getLast?.or (some c) := by
  rw [List.getLast?_cons]
  cases pre.getLast? <;> rfl

theorem stillFrom_cons_iff :
    StillFrom rule before (c :: cs) ↔ rule before c cs = none ∧ StillFrom rule (some c) cs := by
  constructor
  · intro h
    refine ⟨h [] c cs rfl, fun pre d rest heq => ?_⟩
    have hnone := h (c :: pre) d rest (congrArg (c :: ·) heq)
    rwa [getLast?_cons_or] at hnone
  · rintro ⟨hc, h⟩ pre d rest heq
    cases pre with
    | nil =>
      obtain ⟨rfl, rfl⟩ := List.cons.inj heq
      exact hc
    | cons x pre =>
      obtain ⟨rfl, rfl⟩ := List.cons.inj heq
      rw [getLast?_cons_or]
      exact h pre d rest rfl

theorem Still.sweep_eq (h : Still rule cs) : sweep rule cs = cs := by
  refine sweepFrom_induct (motive := fun before cs ds => StillFrom rule before cs → ds = cs) ?nil ?keep
    ?fire none cs (stillFrom_none_iff.2 h)
  case nil => exact fun _ _ => rfl
  case keep =>
    intro before c cs ds _ ih hstill
    rw [ih (stillFrom_cons_iff.1 hstill).2]
  case fire =>
    intro before c cs s ds hrule _ hstill
    cases hrule.symm.trans (stillFrom_cons_iff.1 hstill).1

theorem KeepsOrShortens.sweep (h : Rewrites Shorter rule) : KeepsOrShortens (sweep rule) (Still rule) := by
  have hfrom : ∀ before cs, sweepFrom rule before cs [] = cs ∧ StillFrom rule before cs ∨
      Shorter cs (sweepFrom rule before cs []) := by
    refine sweepFrom_induct (motive := fun before cs ds => ds = cs ∧ StillFrom rule before cs ∨
      Shorter cs ds) ?nil ?keep ?fire
    case nil => exact fun before => .inl ⟨rfl, fun pre c rest heq => by simp at heq⟩
    case keep =>
      rintro before c cs ds hc (⟨rfl, hstill⟩ | hlt)
      · exact .inl ⟨rfl, stillFrom_cons_iff.2 ⟨hc, hstill⟩⟩
      · rw [Shorter, solid_cons c ds, solid_cons c cs]
        exact .inr (Nat.add_lt_add_left hlt _)
    case fire =>
      intro before c cs s ds hrule hrest
      have hsplit : solid (c :: cs) = solid (c :: cs.take s.more) + solid (cs.drop s.more) := by
        rw [← solid_append, List.cons_append, List.take_append_drop]
      have htail : solid ds ≤ solid (cs.drop s.more) := by
        rcases hrest with ⟨rfl, -⟩ | hlt
        · exact Nat.le_refl _
        · exact Nat.le_of_lt hlt
      rw [Shorter, hsplit, solid_append]
      exact .inr (Nat.add_lt_add_of_lt_of_le (h hrule) htail)
  intro cs
  exact (hfrom none cs).imp_left (And.imp_right stillFrom_none_iff.1)

end

section
variable {f g : List Char → List Char} {P Q : List Char → Prop}

theorem KeepsOrShortens.comp (hf : KeepsOrShortens f P) (hg : KeepsOrShortens g Q) :
    KeepsOrShortens (fun cs => g (f cs)) fun cs => P cs ∧ Q cs := by
  intro cs
  rcases hf cs with ⟨hkeep, hp⟩ | hlt
  · dsimp only
    rw [hkeep]
    exact (hg cs).imp_left fun ⟨hkeep, hq⟩ => ⟨hkeep, hp, hq⟩
  · rcases hg (f cs) with ⟨hkeep, -⟩ | hlt'
    · dsimp only
      rw [hkeep]
      exact .inr hlt
    · exact .inr (Nat.lt_trans hlt' hlt)

/-- The words for operators leave a text, or it loses characters. -/
theorem keepsOrShortens_operatorWords : KeepsOrShortens replaceOperatorWords fun cs =>
    ∀ ws sign, (ws, sign) ∈ operatorWords → Still (operatorWord ws sign) cs := by
  have hfold : ∀ es : List (List String × Char), (∀ e ∈ es, e ∈ operatorWords) →
      KeepsOrShortens (fun cs => es.foldl (fun cs e => sweep (operatorWord e.1 e.2) cs) cs)
        fun cs => ∀ e ∈ es, Still (operatorWord e.1 e.2) cs := by
    intro es
    induction es with
    | nil => exact fun _ cs => .inl ⟨rfl, fun e he => absurd he List.not_mem_nil⟩
    | cons e es ih =>
      intro hes cs
      have hfirst := KeepsOrShortens.sweep (shorter_operatorWord (hes e (List.mem_cons_self ..)))
      have hrest := ih fun e he => hes e (List.mem_cons_of_mem _ he)
      exact (hfirst.comp hrest cs).imp_left fun ⟨hsame, hstill⟩ =>
        ⟨hsame, List.forall_mem_cons.2 hstill⟩
  exact fun cs => (hfold operatorWords (fun _ he => he) cs).imp_left fun ⟨hsame, hstill⟩ =>
    ⟨hsame, fun ws sign he => hstill (ws, sign) he⟩

end

/-! ### Undisturbed texts -/

/-- The word stands in the text between word boundaries. -/
def StandsIn (word cs : List Char) : Prop :=
  ∃ pre rest, cs = pre ++ (word ++ rest) ∧ opensWord pre.getLast? = true ∧ closesWord rest = true

/-- No rule for words or underscores finds anything in a text without blanks: no word for a number or
an operator stands in it, and no digits with an underscore and another digit behind them start a
word. -/
structure Undisturbed (cs : List Char) : Prop where
  numbers : ∀ word, StandsIn word cs → ∀ e ∈ numberWords, ¬ Spells isEitherCase e.1.toList word
  operators : ∀ word, StandsIn word cs → ∀ w sign, ([w], sign) ∈ operatorWords →
    ¬ Spells foldsTo w.toList word
  underscores : ∀ pre run d rest, cs = pre ++ (run ++ '_' :: d :: rest) →
    opensWord pre.getLast? = true → run ≠ [] → (∀ c ∈ run, isDecimal c = true) → isDecimal d = false

section
variable {cs : List Char}

theorem standsIn_of_rule {pre rest : List Char} {c : Char} {n : Nat} (hcs : cs = pre ++ c :: rest)
    (hopens : opensWord pre.getLast? = true) (hcloses : closesWord (rest.drop n) = true) :
    StandsIn (c :: rest.take n) cs := by
  refine ⟨pre, rest.drop n, ?_, hopens, hcloses⟩
  rw [hcs, List.cons_append, List.take_append_drop]

theorem phraseLength?_word {same : Char → Char → Bool} {w : String} {word rest : List Char}
    {before : Option Char} (hword : Spells same w.toList word) (hopens : opensWord before = true)
    (hcloses : closesWord rest = true) :
    phraseLength? same [w] before (word ++ rest) = some w.length := by
  have hafter : afterWord? same w.toList (word ++ rest) = some rest :=
    afterWord?_eq_some.2 ⟨word, hword, rfl⟩
  rw [phraseLength?, if_pos hopens, afterPhrase?, hafter]
  exact if_pos hcloses

theorem still_numberWord_iff : Still numberWord cs ↔
    ∀ word, StandsIn word cs → ∀ e ∈ numberWords, ¬ Spells isEitherCase e.1.toList word := by
  constructor
  · rintro hstill word ⟨pre, rest, rfl, hopens, hcloses⟩ e he hspells
    have hlong := (numberWords_facts e he).2
    rw [List.Forall₂.length_eq hspells] at hlong
    cases word with
    | nil => exact absurd hlong (Nat.not_lt_zero _)
    | cons c word =>
      have hnone := hstill pre c (word ++ rest) rfl
      have hword := List.findSome?_eq_none_iff.1 hnone e he
      obtain ⟨w, n⟩ := e
      dsimp only at hword hspells
      rw [← List.cons_append, phraseLength?_word hspells hopens hcloses] at hword
      cases hword
  · intro h pre c rest hcs
    cases hrule : numberWord pre.getLast? c rest with
    | none => rfl
    | some s =>
      obtain ⟨hopens, hcloses, e, he, hspells, -⟩ := numberWord_spec hrule
      exact absurd hspells (h _ (standsIn_of_rule hcs hopens hcloses) e he)

theorem still_operatorWords_iff (hblank : ∀ c ∈ cs, isBlank c = false) :
    (∀ ws sign, (ws, sign) ∈ operatorWords → Still (operatorWord ws sign) cs) ↔
      ∀ word, StandsIn word cs → ∀ w sign, ([w], sign) ∈ operatorWords →
        ¬ Spells foldsTo w.toList word := by
  constructor
  · rintro hstill word ⟨pre, rest, rfl, hopens, hcloses⟩ w sign he hspells
    have hlong := (operatorWords_facts _ he).2.1
    have hlength := List.Forall₂.length_eq hspells
    cases word with
    | nil =>
      have hlong : 1 < w.toList.length := of_decide_eq_true hlong
      rw [hlength] at hlong
      exact absurd hlong (Nat.not_lt_zero _)
    | cons c word =>
      have hnone := hstill [w] sign he pre c (word ++ rest) rfl
      rw [operatorWord, ← List.cons_append, phraseLength?_word hspells hopens hcloses] at hnone
      cases hnone
  · intro h ws sign he pre c rest hcs
    cases hrule : operatorWord ws sign pre.getLast? c rest with
    | none => rfl
    | some s =>
      obtain ⟨hopens, hcloses, hphrase, -⟩ := operatorWord_spec he hrule
      have hstands := standsIn_of_rule hcs hopens hcloses
      generalize c :: rest.take s.more = phrase at hphrase hstands
      cases hphrase with
      | nil => exact absurd (operatorWords_facts _ he).2.1 Bool.false_ne_true
      | word hspells => exact absurd hspells (h _ hstands _ sign he)
      | words _ hne hblanks _ =>
        -- a phrase of several words has blanks
        obtain ⟨b, hb⟩ := List.exists_mem_of_ne_nil _ hne
        obtain ⟨before, behind, rfl, -⟩ := hstands
        cases (hblanks b hb).symm.trans (hblank b (by simp [hb]))

theorem still_underscored_iff : Still underscored cs ↔
    ∀ pre run d rest, cs = pre ++ (run ++ '_' :: d :: rest) → opensWord pre.getLast? = true →
      run ≠ [] → (∀ c ∈ run, isDecimal c = true) → isDecimal d = false := by
  constructor
  · rintro hstill pre run d rest rfl hopens hne hrun
    refine Bool.eq_false_iff.2 fun hd => ?_
    cases run with
    | nil => exact hne rfl
    | cons c run =>
      obtain ⟨hc, hrun⟩ := List.forall_mem_cons.1 hrun
      have hmark : ∀ x xs, '_' :: d :: rest = x :: xs → isDecimal x = false := by
        rintro x xs heq
        obtain ⟨rfl, -⟩ := List.cons.inj heq
        rfl
      have hnone := hstill pre c (run ++ '_' :: d :: rest) rfl
      unfold underscored at hnone
      rw [hopens, hc, (takeWhile_dropWhile_append hrun hmark).2, underscoreGroups,
        List.takeWhile_cons_of_pos hd, if_neg (List.cons_ne_nil _ _)] at hnone
      cases hnone
  · intro h pre c rest hcs
    cases hrule : underscored pre.getLast? c rest with
    | none => rfl
    | some s =>
      obtain ⟨hopens, hc, run, groups, hrun, hgroups, hne, htaken, -⟩ := underscored_spec hrule
      cases groups with
      | nil => exact absurd rfl hne
      | cons g gs =>
        obtain ⟨hg, hdigits⟩ := hgroups g (List.mem_cons_self ..)
        cases g with
        | nil => exact absurd rfl hg
        | cons d g =>
          have hd := hdigits d (List.mem_cons_self ..)
          have hrest : rest = run ++ '_' :: d :: (g ++ gs.flatMap ('_' :: ·) ++ rest.drop s.more) := by
            conv_lhs => rw [← List.take_append_drop s.more rest, htaken]
            simp
          rw [hrest] at hcs
          have hnone := h pre (c :: run) d _ hcs hopens (List.cons_ne_nil _ _)
            (List.forall_mem_cons.2 ⟨hc, hrun⟩)
          cases hd.symm.trans hnone

/-- The rules that can fire in a name. -/
def rewriteWords (cs : List Char) : List Char :=
  removeUnderscores (replaceOperatorWords (replaceNumberWords cs))

theorem keepsOrShortens_rewriteWords : KeepsOrShortens rewriteWords fun cs =>
    (Still numberWord cs ∧ ∀ ws sign, (ws, sign) ∈ operatorWords → Still (operatorWord ws sign) cs) ∧
      Still underscored cs :=
  ((KeepsOrShortens.sweep shorter_numberWord).comp keepsOrShortens_operatorWords).comp
    (.sweep shorter_underscored)

theorem undisturbed_iff (hblank : ∀ c ∈ cs, isBlank c = false) : Undisturbed cs ↔
    (Still numberWord cs ∧ ∀ ws sign, (ws, sign) ∈ operatorWords → Still (operatorWord ws sign) cs) ∧
      Still underscored cs := by
  rw [still_numberWord_iff, still_operatorWords_iff hblank, still_underscored_iff]
  exact ⟨fun h => ⟨⟨h.numbers, h.operators⟩, h.underscores⟩, fun h => ⟨h.1.1, h.1.2, h.2⟩⟩

theorem shorter_rewriteWords (hblank : ∀ c ∈ cs, isBlank c = false) (h : ¬ Undisturbed cs) :
    Shorter cs (rewriteWords cs) :=
  (keepsOrShortens_rewriteWords cs).resolve_left fun hkeep => h ((undisturbed_iff hblank).2 hkeep.2)

theorem rewriteWords_eq_iff (hblank : ∀ c ∈ cs, isBlank c = false) :
    rewriteWords cs = cs ↔ Undisturbed cs := by
  constructor
  · intro hsame
    by_contra hdisturbed
    have hshort := shorter_rewriteWords hblank hdisturbed
    rw [hsame] at hshort
    exact absurd hshort (Nat.lt_irrefl _)
  · intro h
    obtain ⟨⟨hnumbers, hoperators⟩, hunderscores⟩ := (undisturbed_iff hblank).1 h
    rw [rewriteWords, replaceNumberWords, hnumbers.sweep_eq,
      replaceOperatorWords_of_sweep fun ws sign he => (hoperators ws sign he).sweep_eq,
      removeUnderscores, hunderscores.sweep_eq]

end

/-! ### Names -/

/-- The text has characters of names only. -/
def NameText (cs : List Char) : Prop := ∀ c ∈ cs, Text.isNamePart c = true

/-- Characters that rules look for one by one. -/
def markChars : List Char := ['\n', '#', '/', '×', '÷', '−', '.', ',', degreeSign]

/-- No name has such characters, blanks or symbols. -/
theorem not_isNamePart : ∀ c ∈ markChars ++ (blankCodes.map Char.ofNat ++ Currency.symbols.map (·.1)),
    Text.isNamePart c = false :=
  List.all_iff_forall_prop.1 (by decide +kernel)

theorem shares_replaceOperatorWords {x : Char} (hx : x ∈ foreignChars) (cs : List Char) :
    Shares x cs (replaceOperatorWords (replaceNumberWords cs)) :=
  ((shares_numberWord hx).sweep (piecewise_shares x) cs).trans
    ((piecewise_shares x).replaceOperatorWords (fun he => shares_operatorWord he hx) _)

namespace NameText
variable {cs : List Char} (h : NameText cs)
include h

theorem not_mem_of_special {x : Char}
    (hx : x ∈ markChars ++ (blankCodes.map Char.ofNat ++ Currency.symbols.map (·.1))) : x ∉ cs :=
  fun hmem => by cases (not_isNamePart x hx).symm.trans (h x hmem)

theorem not_mem {x : Char} (hx : x ∈ markChars) : x ∉ cs :=
  h.not_mem_of_special (List.mem_append_left _ hx)

theorem not_blank : ∀ c ∈ cs, isBlank c = false := fun _ hc =>
  Bool.eq_false_iff.2 fun hblank => h.not_mem_of_special
    (List.mem_append_right _ (List.mem_append_left _ (mem_blankChars hblank))) hc

theorem symbol_not_mem {x : Char} {code : String} (hx : Currency.ofSymbol? x = some code) :
    x ∈ foreignChars ∧ x ∉ cs := by
  obtain ⟨e, he, rfl, -⟩ := exists_of_ofSymbol? hx
  have hmem : e.1 ∈ Currency.symbols.map (·.1) := List.mem_map_of_mem he
  exact ⟨List.mem_cons_of_mem _ (List.mem_cons_of_mem _ hmem),
    h.not_mem_of_special (List.mem_append_right _ (List.mem_append_right _ hmem))⟩

/-- No other rule takes a part in the normal form of a name. -/
theorem normalize_eq (l : Locale) :
    normalize l cs = Text.trim (normalizeNumbers l (rewriteWords cs)) := by
  have hcomments : removeComments cs = cs := by
    have hslashes : ¬ ['/', '/'] <:+: cs := fun hin =>
      h.not_mem (by decide) (hin.subset (List.mem_cons_self ..))
    rw [removeComments_eq hslashes (h.not_mem (by decide)),
      Text.joinLines_eq (h.not_mem (by decide))]
  have htrim : Text.trim cs = cs := (Text.thins_trim cs).eq_of_no_blank h.not_blank
  have hsigns : cs.map plainSign = cs := by
    refine (List.map_congr_left fun c hc => ?_).trans (List.map_id _)
    have hne : ∀ x ∈ markChars, c ≠ x := fun x hx heq => h.not_mem hx (heq ▸ hc)
    rw [plainSign, if_neg (hne '×' (by decide)), if_neg (hne '÷' (by decide)),
      if_neg (hne '−' (by decide)), id]
  have hdegree : degreeSign ∉ replaceOperatorWords (replaceNumberWords cs) := fun hmem =>
    h.not_mem (by decide)
      ((shares_replaceOperatorWords (List.mem_cons_of_mem _ (List.mem_cons_self ..)) cs).2 hmem)
  have hsymbols : NoSymbol (normalizeNumbers l (rewriteWords cs)) := by
    intro c hc
    cases hcode : Currency.ofSymbol? c with
    | none => rfl
    | some code =>
      obtain ⟨hforeign, hnone⟩ := h.symbol_not_mem hcode
      have hshares := piecewise_shares c
      have hnumbers := hshares.normalizeNumbers (shares_spaced hforeign)
        (shares_punctuated l hforeign) (rewriteWords cs)
      have hunderscores := (shares_underscored hforeign).sweep hshares
        (replaceOperatorWords (replaceNumberWords cs))
      exact absurd ((shares_replaceOperatorWords hforeign cs).2 (hunderscores.2 (hnumbers.2 hc))) hnone
  unfold normalize
  dsimp only
  rw [hcomments, htrim, hsigns, replaceDegrees_eq hdegree]
  exact congrArg Text.trim (replaceSymbols_eq hsymbols)

theorem normalize_eq_self (hundisturbed : Undisturbed cs) (l : Locale) : normalize l cs = cs := by
  have hwords := (rewriteWords_eq_iff h.not_blank).2 hundisturbed
  have hspaced : Idle spaced cs := idle_spaced fun {_ b _ _} hsuffix _ hb => by
    have hmem : b ∈ cs := hsuffix.subset (by simp)
    cases (isBlank_of_isGroupSpace hb).symm.trans (h.not_blank b hmem)
  have hpunctuated : Idle (punctuated l) cs :=
    idle_punctuated (h.not_mem (by decide)) (h.not_mem (by decide)) l
  have hnumbers : normalizeNumbers l cs = cs := by
    rw [normalizeNumbers, hspaced.sweep_eq, ite_self, hpunctuated.sweep_eq]
  rw [h.normalize_eq, hwords, hnumbers]
  exact (Text.thins_trim cs).eq_of_no_blank h.not_blank

/-- The normal form of any other name has fewer characters, blanks not counted. -/
theorem shorter_normalize (hdisturbed : ¬ Undisturbed cs) (l : Locale) :
    Shorter cs (normalize l cs) := by
  have hshort := shorter_rewriteWords h.not_blank hdisturbed
  have hnumbers : Leaner (rewriteWords cs) (normalizeNumbers l (rewriteWords cs)) :=
    piecewise_leaner.normalizeNumbers leaner_spaced (leaner_punctuated l) _
  have htrim : solid (Text.trim (normalizeNumbers l (rewriteWords cs))) ≤
      solid (normalizeNumbers l (rewriteWords cs)) := (Text.thins_trim _).sublist.countP_le
  rw [h.normalize_eq, Shorter]
  exact Nat.lt_of_le_of_lt htrim (Nat.lt_of_le_of_lt hnumbers hshort)

end NameText

end Reckoner.Spelling

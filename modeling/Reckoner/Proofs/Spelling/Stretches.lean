import Mathlib.Data.List.Forall2
import Reckoner.Proofs.ReadBack.Amounts
import Reckoner.Proofs.ReadBack.Parts

/-!
# What the rules take and write

Each rule is opened once, for the stretch that it takes where it fires and for what it writes instead.
What is so of all stretches is so of whole texts (`Rewrites.sweep`): a character that plays no part in
words and numbers is in a text after the sweep if it was there before (`Shares`), and no rule for words
and numbers leaves more characters than it finds, blanks not counted (`Leaner`).
-/

namespace Reckoner.Spelling

open Text (isBlank isDecimal)

/-! ### From stretches to texts -/

/-- What the rule takes and what it writes for it are related. -/
def Rewrites (R : List Char → List Char → Prop) (rule : Rule) : Prop :=
  ∀ ⦃before c cs s⦄, rule before c cs = some s → R (c :: cs.take s.more) s.replacement

/-- A relation of texts that holds of the whole where it holds of the parts. -/
structure Piecewise (R : List Char → List Char → Prop) : Prop where
  refl : ∀ cs, R cs cs
  trans : ∀ {cs ds es}, R cs ds → R ds es → R cs es
  append : ∀ {as bs cs ds}, R as bs → R cs ds → R (as ++ cs) (bs ++ ds)

section
variable {R : List Char → List Char → Prop} {rule : Rule}

theorem Rewrites.sweep (hR : Piecewise R) (h : Rewrites R rule) (cs : List Char) :
    R cs (sweep rule cs) := by
  refine sweepFrom_induct (motive := fun _ cs ds => R cs ds) (fun _ => hR.refl []) ?keep ?fire none cs
  case keep =>
    intro _ c cs ds _ ih
    exact hR.append (hR.refl [c]) ih
  case fire =>
    intro _ c cs s ds hrule ih
    have hstretch := hR.append (h hrule) ih
    rwa [List.cons_append, List.take_append_drop] at hstretch

theorem Piecewise.replaceOperatorWords (hR : Piecewise R)
    (h : ∀ {ws sign}, (ws, sign) ∈ operatorWords → Rewrites R (operatorWord ws sign))
    (cs : List Char) : R cs (replaceOperatorWords cs) := by
  have hfold : ∀ es : List (List String × Char), (∀ e ∈ es, e ∈ operatorWords) →
      ∀ ds, R ds (es.foldl (fun ds e => Spelling.sweep (operatorWord e.1 e.2) ds) ds) := by
    intro es
    induction es with
    | nil => exact fun _ ds => hR.refl ds
    | cons e es ih =>
      intro hes ds
      exact hR.trans (Rewrites.sweep hR (h (hes e (List.mem_cons_self ..))) ds)
        (ih (fun e he => hes e (List.mem_cons_of_mem _ he)) _)
  exact hfold operatorWords (fun _ he => he) cs

theorem Piecewise.normalizeNumbers {l : Locale} (hR : Piecewise R) (hspaced : Rewrites R spaced)
    (hpunctuated : Rewrites R (punctuated l)) (cs : List Char) : R cs (normalizeNumbers l cs) := by
  unfold Spelling.normalizeNumbers
  split
  · exact hR.trans (hspaced.sweep hR cs) (hpunctuated.sweep hR _)
  · exact hpunctuated.sweep hR cs

end

/-- The character is in both texts or in neither. -/
def Shares (x : Char) (cs ds : List Char) : Prop := x ∈ cs ↔ x ∈ ds

theorem piecewise_shares (x : Char) : Piecewise (Shares x) :=
  ⟨fun _ => Iff.rfl, Iff.trans, fun h h' => by
    unfold Shares at h h' ⊢
    rw [List.mem_append, List.mem_append, h, h']⟩

/-- How many characters of the text are no blanks. -/
def solid (cs : List Char) : Nat := cs.countP fun c => !isBlank c

/-- The second text has no more characters than the first, blanks not counted. -/
def Leaner (cs ds : List Char) : Prop := solid ds ≤ solid cs

/-- The second text has fewer characters than the first, blanks not counted. -/
def Shorter (cs ds : List Char) : Prop := solid ds < solid cs

theorem solid_append (cs ds : List Char) : solid (cs ++ ds) = solid cs + solid ds :=
  List.countP_append

theorem solid_cons (c : Char) (cs : List Char) : solid (c :: cs) = solid [c] + solid cs :=
  solid_append [c] cs

theorem piecewise_leaner : Piecewise Leaner :=
  ⟨fun _ => Nat.le_refl _, fun h h' => Nat.le_trans h' h, fun h h' => by
    unfold Leaner at h h' ⊢
    rw [solid_append, solid_append]
    omega⟩

/-! ### Words and phrases -/

/-- The text is the word `w`, letters being compared by `same`. -/
def Spells (same : Char → Char → Bool) (w cs : List Char) : Prop :=
  List.Forall₂ (fun p c => same p c = true) w cs

/-- The text is the words with blanks between them. -/
inductive Phrase (same : Char → Char → Bool) : List String → List Char → Prop where
  | nil : Phrase same [] []
  | word {w cs} : Spells same w.toList cs → Phrase same [w] cs
  | words {w w' ws cs blanks ds} : Spells same w.toList cs → blanks ≠ [] →
      (∀ c ∈ blanks, isBlank c = true) → Phrase same (w' :: ws) ds →
        Phrase same (w :: w' :: ws) (cs ++ (blanks ++ ds))

section
variable {same : Char → Char → Bool}

theorem afterWord?_eq_some : ∀ {w cs rest : List Char},
    afterWord? same w cs = some rest ↔ ∃ word, Spells same w word ∧ cs = word ++ rest
  | [], cs, rest => by
    rw [afterWord?, Option.some.injEq]
    constructor
    · rintro rfl
      exact ⟨[], .nil, rfl⟩
    · rintro ⟨word, hword, rfl⟩
      cases hword
      rfl
  | p :: ps, [], rest => by
    constructor
    · intro h
      cases h
    · rintro ⟨word, hword, heq⟩
      cases hword
      cases heq
  | p :: ps, c :: cs, rest => by
    rw [afterWord?]
    constructor
    · intro h
      split at h
      · next hp =>
        obtain ⟨word, hword, rfl⟩ := afterWord?_eq_some.1 h
        exact ⟨c :: word, .cons hp hword, rfl⟩
      · cases h
    · rintro ⟨_, hword, heq⟩
      cases hword with
      | cons hp hword =>
        cases heq
        rw [if_pos hp]
        exact afterWord?_eq_some.2 ⟨_, hword, rfl⟩

theorem Spells.length_eq {w : String} {cs : List Char} (h : Spells same w.toList cs) :
    cs.length = w.length := by
  rw [← List.Forall₂.length_eq h, String.length_toList]

theorem afterPhrase?_spec : ∀ {ws : List String} {cs rest : List Char} {n : Nat},
    afterPhrase? same ws cs = some (n, rest) →
      ∃ phrase, Phrase same ws phrase ∧ cs = phrase ++ rest ∧ phrase.length = n
  | [], cs, rest, n, h => by
    cases h
    exact ⟨[], .nil, rfl, rfl⟩
  | [w], cs, rest, n, h => by
    obtain ⟨rest', hword, heq⟩ := Option.map_eq_some_iff.1 h
    cases heq
    obtain ⟨word, hspells, rfl⟩ := afterWord?_eq_some.1 hword
    exact ⟨word, .word hspells, rfl, hspells.length_eq⟩
  | w :: w' :: ws, cs, rest, n, h => by
    rw [afterPhrase?.eq_3 _ _ _ _ (List.cons_ne_nil w' ws)] at h
    split at h
    · cases h
    · next behind hword =>
      obtain ⟨word, hspells, rfl⟩ := afterWord?_eq_some.1 hword
      dsimp only at h
      split at h
      · cases h
      · next hblanks =>
        obtain ⟨⟨n', rest'⟩, hwords, heq⟩ := Option.map_eq_some_iff.1 h
        cases heq
        obtain ⟨phrase, hphrase, hbehind, rfl⟩ := afterPhrase?_spec hwords
        refine ⟨word ++ (behind.takeWhile isBlank ++ phrase),
          .words hspells (by simpa using hblanks) (fun c hc => mem_takeWhile hc) hphrase, ?_, ?_⟩
        · rw [List.append_assoc, List.append_assoc, ← hbehind, List.takeWhile_append_dropWhile]
        · rw [List.length_append, List.length_append, hspells.length_eq]
          omega

theorem phraseLength?_spec {ws : List String} {before : Option Char} {cs : List Char} {n : Nat}
    (h : phraseLength? same ws before cs = some n) :
    opensWord before = true ∧
      ∃ phrase rest, Phrase same ws phrase ∧ cs = phrase ++ rest ∧ phrase.length = n ∧
        closesWord rest = true := by
  unfold phraseLength? at h
  split at h
  · next hopens =>
    split at h
    · next k rest hphrase =>
      split at h
      · next hcloses =>
        cases h
        obtain ⟨phrase, hspec, hcs, hlength⟩ := afterPhrase?_spec hphrase
        exact ⟨hopens, phrase, rest, hspec, hcs, hlength, hcloses⟩
      · cases h
    · cases h
  · cases h

end

/-! ### The characters of words -/

/-- The letters that words for numbers and operators are made of. -/
def letters : List Char := "abcdefghijklmnopqrstuvwxyz".toList

/-- The word has letters only. -/
def Lettered (w : String) : Prop := w.toList.all letters.contains = true

instance (w : String) : Decidable (Lettered w) := inferInstanceAs (Decidable (_ = true))

theorem Lettered.mem {w : String} (h : Lettered w) {p : Char} (hp : p ∈ w.toList) : p ∈ letters :=
  List.contains_iff_mem.1 (List.all_eq_true.1 h p hp)

/-- Characters that play no part in words and numbers. -/
def foreignChars : List Char := '#' :: degreeSign :: Currency.symbols.map (·.1)

theorem numberWords_facts : ∀ e ∈ numberWords,
    Lettered e.1 ∧ (Nat.toDigits 10 e.2).length < e.1.toList.length :=
  List.all_iff_forall_prop.1 (by decide)

theorem operatorWords_facts : ∀ e ∈ operatorWords, e.2 ∈ ['*', '/', '+', '-', '%'] ∧
    e.1.head?.any (1 < ·.toList.length) = true ∧ ∀ w ∈ e.1, Lettered w :=
  List.all_iff_forall_prop.1 (by decide)

/-- No letter has a foreign character or a blank among its forms. -/
theorem foldsTo_eq_false : ∀ c ∈ foreignChars ++ blankCodes.map Char.ofNat,
    letters.all (fun p => !foldsTo p c) = true :=
  List.all_iff_forall_prop.1 (by decide)

theorem foreignChars_facts : ∀ x ∈ foreignChars, isBlank x = false ∧ isDecimal x = false ∧
    x ∉ ['*', '/', '+', '-', '%', '_', '.', ','] :=
  List.all_iff_forall_prop.1 (by decide)

theorem foldsTo_of_isEitherCase {p c : Char} (h : isEitherCase p c = true) : foldsTo p c = true := by
  rw [foldsTo, h, Bool.true_or, Bool.true_or]

theorem foldsTo_foreign {p x : Char} (hp : p ∈ letters) (hx : x ∈ foreignChars) :
    foldsTo p x = false := by
  have hforms := List.all_eq_true.1 (foldsTo_eq_false x (List.mem_append_left _ hx)) p hp
  simpa using hforms

theorem isBlank_of_foldsTo {p c : Char} (hp : p ∈ letters) (h : foldsTo p c = true) :
    isBlank c = false := by
  refine Bool.eq_false_iff.2 fun hblank => ?_
  have hforms := List.all_eq_true.1 (foldsTo_eq_false c
    (List.mem_append_right _ (mem_blankChars hblank))) p hp
  rw [h] at hforms
  cases hforms

section
variable {same : Char → Char → Bool} {ws : List String} {w cs : List Char} {x : Char}

theorem Spells.exists_letter (h : Spells same w cs) {c : Char} (hc : c ∈ cs) :
    ∃ p ∈ w, same p c = true := by
  induction h with
  | nil => cases hc
  | cons hp _ ih =>
    rcases List.mem_cons.1 hc with rfl | hc
    · exact ⟨_, List.mem_cons_self .., hp⟩
    · obtain ⟨p, hmem, hp⟩ := ih hc
      exact ⟨p, List.mem_cons_of_mem _ hmem, hp⟩

theorem Phrase.blank_or_letter (h : Phrase same ws cs) {c : Char} (hc : c ∈ cs) :
    isBlank c = true ∨ ∃ w ∈ ws, ∃ p ∈ w.toList, same p c = true := by
  induction h with
  | nil => cases hc
  | word hspells => exact .inr ⟨_, List.mem_cons_self .., hspells.exists_letter hc⟩
  | words hspells _ hblanks _ ih =>
    rcases List.mem_append.1 hc with hc | hc
    · exact .inr ⟨_, List.mem_cons_self .., hspells.exists_letter hc⟩
    · rcases List.mem_append.1 hc with hc | hc
      · exact .inl (hblanks c hc)
      · refine (ih hc).imp_right ?_
        rintro ⟨w, hw, hp⟩
        exact ⟨w, List.mem_cons_of_mem _ hw, hp⟩

theorem Phrase.not_mem (h : Phrase foldsTo ws cs) (hws : ∀ w ∈ ws, Lettered w)
    (hx : x ∈ foreignChars) : x ∉ cs := fun hmem => by
  rcases h.blank_or_letter hmem with hblank | ⟨w, hw, p, hp, hfolds⟩
  · rw [(foreignChars_facts x hx).1] at hblank
    cases hblank
  · rw [foldsTo_foreign ((hws w hw).mem hp) hx] at hfolds
    cases hfolds

/-- No character of a word is a blank. -/
theorem Spells.solid_eq {w : String} (h : Spells foldsTo w.toList cs) (hw : Lettered w) :
    solid cs = w.toList.length := by
  rw [List.Forall₂.length_eq h]
  refine List.countP_eq_length.2 fun c hc => ?_
  obtain ⟨p, hp, hfolds⟩ := h.exists_letter hc
  rw [isBlank_of_foldsTo (hw.mem hp) hfolds]
  rfl

theorem Phrase.lt_solid (h : Phrase foldsTo ws cs) (hws : ∀ w ∈ ws, Lettered w) {n : Nat}
    (hn : ws.head?.any (n < ·.toList.length) = true) : n < solid cs := by
  cases h with
  | nil => cases hn
  | word hspells =>
    rw [hspells.solid_eq (hws _ (List.mem_cons_self ..))]
    exact of_decide_eq_true hn
  | words hspells =>
    rw [solid_append, hspells.solid_eq (hws _ (List.mem_cons_self ..))]
    exact Nat.lt_add_right _ (of_decide_eq_true hn)

end

/-! ### Words -/

section
variable {before : Option Char} {c x : Char} {cs phrase rest : List Char} {s : Stretch}

theorem cons_take_eq (h : c :: cs = phrase ++ rest) (hne : phrase ≠ []) :
    c :: cs.take (phrase.length - 1) = phrase ∧ cs.drop (phrase.length - 1) = rest := by
  cases phrase with
  | nil => exact absurd rfl hne
  | cons d phrase =>
    rw [List.cons_append] at h
    obtain ⟨rfl, rfl⟩ := List.cons.inj h
    rw [List.length_cons, Nat.add_sub_cancel, List.take_left, List.drop_left]
    exact ⟨rfl, rfl⟩

theorem numberWord_spec (h : numberWord before c cs = some s) :
    opensWord before = true ∧ closesWord (cs.drop s.more) = true ∧
      ∃ e ∈ numberWords, Spells isEitherCase e.1.toList (c :: cs.take s.more) ∧
        s.replacement = Nat.toDigits 10 e.2 := by
  obtain ⟨e, he, hs⟩ := List.exists_of_findSome?_eq_some h
  obtain ⟨k, hk, rfl⟩ := Option.map_eq_some_iff.1 hs
  obtain ⟨hopens, word, rest, hphrase, hcs, rfl, hcloses⟩ := phraseLength?_spec hk
  cases hphrase with
  | word hspells =>
    have hshort := (numberWords_facts e he).2
    rw [List.Forall₂.length_eq hspells] at hshort
    have hne : word ≠ [] := List.length_pos_iff.1 (by omega)
    obtain ⟨htake, hdrop⟩ := cons_take_eq hcs hne
    dsimp only
    rw [htake, hdrop]
    exact ⟨hopens, hcloses, e, he, hspells, rfl⟩

theorem operatorWord_spec {ws : List String} {sign : Char} (he : (ws, sign) ∈ operatorWords)
    (h : operatorWord ws sign before c cs = some s) :
    opensWord before = true ∧ closesWord (cs.drop s.more) = true ∧
      Phrase foldsTo ws (c :: cs.take s.more) ∧ s.replacement = [' ', sign, ' '] := by
  obtain ⟨k, hk, rfl⟩ := Option.map_eq_some_iff.1 h
  obtain ⟨hopens, phrase, rest, hphrase, hcs, rfl, hcloses⟩ := phraseLength?_spec hk
  obtain ⟨-, hlong, hletters⟩ := operatorWords_facts _ he
  have hne : phrase ≠ [] := by
    rintro rfl
    exact absurd (hphrase.lt_solid hletters hlong) (Nat.not_lt_zero _)
  obtain ⟨htake, hdrop⟩ := cons_take_eq hcs hne
  dsimp only
  rw [htake, hdrop]
  exact ⟨hopens, hcloses, hphrase, rfl⟩

theorem shorter_numberWord : Rewrites Shorter numberWord := by
  intro before c cs s h
  obtain ⟨-, -, e, he, hspells, hwritten⟩ := numberWord_spec h
  obtain ⟨hletters, hshort⟩ := numberWords_facts e he
  have hfolds : Spells foldsTo e.1.toList (c :: cs.take s.more) :=
    List.Forall₂.imp (fun _ _ => foldsTo_of_isEitherCase) hspells
  rw [Shorter, hwritten, hfolds.solid_eq hletters]
  exact Nat.lt_of_le_of_lt List.countP_le_length hshort

theorem shorter_operatorWord {ws : List String} {sign : Char} (he : (ws, sign) ∈ operatorWords) :
    Rewrites Shorter (operatorWord ws sign) := by
  intro before c cs s h
  obtain ⟨-, -, hphrase, hwritten⟩ := operatorWord_spec he h
  obtain ⟨hsign, hlong, hletters⟩ := operatorWords_facts _ he
  have hone : solid [' ', sign, ' '] ≤ 1 := by
    have hspace : solid [' '] = 0 := rfl
    have hsplit : solid [' ', sign, ' '] = solid [' '] + (solid [sign] + solid [' ']) := by
      rw [← solid_append, ← solid_append]
      rfl
    rw [hsplit, hspace, Nat.add_zero, Nat.zero_add]
    exact List.countP_le_length
  rw [Shorter, hwritten]
  exact Nat.lt_of_le_of_lt hone (hphrase.lt_solid hletters hlong)

theorem shares_numberWord (hx : x ∈ foreignChars) : Rewrites (Shares x) numberWord := by
  intro before c cs s h
  obtain ⟨-, -, e, he, hspells, hwritten⟩ := numberWord_spec h
  have hfolds : Spells foldsTo e.1.toList (c :: cs.take s.more) :=
    List.Forall₂.imp (fun _ _ => foldsTo_of_isEitherCase) hspells
  have htaken : x ∉ c :: cs.take s.more := (Phrase.word hfolds).not_mem
    (List.forall_mem_singleton.2 (numberWords_facts e he).1) hx
  have hdigits : x ∉ Nat.toDigits 10 e.2 := fun hmem => by
    have hdecimal := (Decimal.digits_toDigits e.2).isDecimal x hmem
    rw [(foreignChars_facts x hx).2.1] at hdecimal
    cases hdecimal
  rw [Shares, hwritten]
  exact iff_of_false htaken hdigits

theorem shares_operatorWord {ws : List String} {sign : Char} (he : (ws, sign) ∈ operatorWords)
    (hx : x ∈ foreignChars) : Rewrites (Shares x) (operatorWord ws sign) := by
  intro before c cs s h
  obtain ⟨-, -, hphrase, hwritten⟩ := operatorWord_spec he h
  obtain ⟨hsign, -, hletters⟩ := operatorWords_facts _ he
  obtain ⟨hblank, -, hplain⟩ := foreignChars_facts x hx
  have hsigns : x ∉ [' ', sign, ' '] := by
    have hspace : x ≠ ' ' := fun heq => by
      rw [heq] at hblank
      cases hblank
    have hne : x ≠ sign := fun heq => hplain (heq ▸ List.mem_append_left ['_', '.', ','] hsign)
    simp [hspace, hne]
  rw [Shares, hwritten]
  exact iff_of_false (hphrase.not_mem hletters hx) hsigns

end

/-! ### Numbers -/

section
variable {before : Option Char} {c x : Char} {cs : List Char} {s : Stretch}

theorem underscoreGroups_spec (cs : List Char) :
    (∀ g ∈ underscoreGroups cs, g ≠ [] ∧ ∀ d ∈ g, isDecimal d = true) ∧
      ∃ rest, cs = (underscoreGroups cs).flatMap ('_' :: ·) ++ rest := by
  fun_induction underscoreGroups cs with
  | case1 rest hnone => exact ⟨fun g hg => absurd hg List.not_mem_nil, '_' :: rest, rfl⟩
  | case2 rest hsome ih =>
    obtain ⟨hgroups, behind, hbehind⟩ := ih
    refine ⟨List.forall_mem_cons.2 ⟨⟨hsome, fun d hd => mem_takeWhile hd⟩, hgroups⟩, behind, ?_⟩
    rw [List.flatMap_cons, List.cons_append, List.cons_append, List.append_assoc, ← hbehind,
      List.takeWhile_append_dropWhile]
  | case3 cs hother => exact ⟨fun g hg => absurd hg List.not_mem_nil, cs, rfl⟩

theorem length_flatMap_cons (x : Char) : ∀ groups : List (List Char),
    (groups.flatMap (x :: ·)).length = groups.length + groups.flatten.length
  | [] => rfl
  | g :: gs => by
    rw [List.flatMap_cons, List.flatten_cons, List.length_append, List.length_append,
      length_flatMap_cons x gs, List.length_cons, List.length_cons]
    omega

theorem underscored_spec (h : underscored before c cs = some s) :
    opensWord before = true ∧ isDecimal c = true ∧ ∃ run groups,
      (∀ d ∈ run, isDecimal d = true) ∧
        (∀ g ∈ groups, g ≠ [] ∧ ∀ d ∈ g, isDecimal d = true) ∧ groups ≠ [] ∧
          cs.take s.more = run ++ groups.flatMap ('_' :: ·) ∧
            s.replacement = c :: (run ++ groups.flatten) := by
  unfold underscored at h
  split at h
  · next hstart =>
    obtain ⟨hopens, hc⟩ := Bool.and_eq_true_iff.1 hstart
    dsimp only at h
    split at h
    · cases h
    · next hgroups =>
      cases h
      obtain ⟨heach, rest, hrest⟩ := underscoreGroups_spec (cs.dropWhile isDecimal)
      generalize underscoreGroups (cs.dropWhile isDecimal) = groups at hgroups heach hrest
      refine ⟨hopens, hc, _, groups, fun d hd => mem_takeWhile hd, heach, hgroups, ?_, rfl⟩
      have hcs : cs = cs.takeWhile isDecimal ++ groups.flatMap ('_' :: ·) ++ rest := by
        rw [List.append_assoc, ← hrest, List.takeWhile_append_dropWhile]
      dsimp only
      rw [Nat.add_assoc, ← length_flatMap_cons '_', ← List.length_append]
      exact (List.prefix_iff_eq_take.1 ⟨rest, hcs.symm⟩).symm
  · cases h

theorem spaced_spec (h : spaced before c cs = some s) :
    s.replacement = (c :: cs.take s.more).filter fun x => !isBlank x := by
  unfold spaced at h
  split at h
  · dsimp only at h
    split at h
    · obtain ⟨n, -, rfl⟩ := Option.map_eq_some_iff.1 h
      rfl
    · cases h
  · cases h

theorem punctuated_spec {l : Locale} (h : punctuated l before c cs = some s) :
    s.replacement = plainNumber l (c :: cs.take s.more) := by
  unfold punctuated at h
  split at h
  · dsimp only at h
    split at h
    · cases h
    · cases h
      have hrun : ((cs.takeWhile isNumberChar).reverse.dropWhile fun x => !isDecimal x).reverse <+:
          cs := by
        refine List.IsPrefix.trans ?_ (List.takeWhile_prefix isNumberChar)
        rw [← List.reverse_suffix, List.reverse_reverse]
        exact List.dropWhile_suffix _
      dsimp only
      rw [← List.prefix_iff_eq_take.1 hrun]
  · cases h

/-- A number loses separators, and its mark is changed. -/
theorem plainNumber_spec (l : Locale) (cs : List Char) :
    ∃ (keep : Char → Bool) (mark : Char → Char),
      (∀ c, keep c = true ∨ c = '.' ∨ c = ',') ∧ (∀ c, mark c = c ∨ c = ',' ∧ mark c = '.') ∧
        plainNumber l cs = (cs.filter keep).map mark := by
  have hpointed : ∀ c : Char, (if c = ',' then '.' else c) = c ∨
      c = ',' ∧ (if c = ',' then '.' else c) = '.' := by
    intro c
    by_cases hc : c = ','
    · exact .inr ⟨hc, if_pos hc⟩
    · exact .inl (if_neg hc)
  have hdrops : ∀ sep c : Char, (c != sep) = true ∨ c = sep := fun sep c => by
    by_cases hc : c = sep
    · exact .inr hc
    · exact .inl (bne_iff_ne.2 hc)
  have hself : cs = (cs.filter fun _ => true).map id := by simp
  unfold plainNumber
  dsimp only
  split
  · split
    · exact ⟨(· != ','), id, fun c => (hdrops ',' c).imp_right .inr, fun c => .inl rfl,
        (List.map_id _).symm⟩
    · exact ⟨fun _ => true, id, fun c => .inl rfl, fun c => .inl rfl, hself⟩
  · split
    · exact ⟨(· != '.'), _, fun c => (hdrops '.' c).imp_right .inl, hpointed, rfl⟩
    · split
      · exact ⟨fun _ => true, _, fun c => .inl rfl, hpointed, by simp⟩
      · exact ⟨fun _ => true, id, fun c => .inl rfl, fun c => .inl rfl, hself⟩

theorem shorter_underscored : Rewrites Shorter underscored := by
  intro before c cs s h
  obtain ⟨-, -, run, groups, -, -, hne, htaken, hwritten⟩ := underscored_spec h
  have hgroups : ∀ gs : List (List Char),
      solid (gs.flatMap ('_' :: ·)) = gs.length + solid gs.flatten := by
    intro gs
    induction gs with
    | nil => rfl
    | cons g gs ih =>
      have hmark : solid ('_' :: g) = solid g + 1 := List.countP_cons_of_pos rfl
      rw [List.flatMap_cons, List.flatten_cons, solid_append, solid_append, hmark, ih,
        List.length_cons]
      omega
  have hpos := List.length_pos_iff.2 hne
  rw [Shorter, htaken, hwritten, solid_cons c (_ ++ _), solid_append, solid_cons c (_ ++ _), solid_append,
    hgroups]
  omega

theorem shares_underscored (hx : x ∈ foreignChars) : Rewrites (Shares x) underscored := by
  intro before c cs s h
  obtain ⟨-, -, run, groups, -, -, -, htaken, hwritten⟩ := underscored_spec h
  have hmark : x ≠ '_' := fun heq =>
    (foreignChars_facts x hx).2.2 (heq ▸ by simp)
  have hgroups : x ∈ groups.flatMap ('_' :: ·) ↔ x ∈ groups.flatten := by
    simp [hmark]
  rw [Shares, htaken, hwritten, List.mem_cons, List.mem_cons, List.mem_append, List.mem_append,
    hgroups]

theorem leaner_spaced : Rewrites Leaner spaced := by
  intro before c cs s h
  rw [Leaner, spaced_spec h]
  exact List.filter_sublist.countP_le

theorem shares_spaced (hx : x ∈ foreignChars) : Rewrites (Shares x) spaced := by
  intro before c cs s h
  rw [Shares, spaced_spec h, List.mem_filter, (foreignChars_facts x hx).1]
  simp

theorem leaner_punctuated (l : Locale) : Rewrites Leaner (punctuated l) := by
  intro before c cs s h
  obtain ⟨keep, mark, -, hmark, hplain⟩ := plainNumber_spec l (c :: cs.take s.more)
  rw [Leaner, punctuated_spec h, hplain, solid, List.countP_map]
  refine Nat.le_trans (List.countP_mono_left fun x _ hx => ?_) List.filter_sublist.countP_le
  rcases hmark x with heq | ⟨rfl, -⟩
  · rwa [Function.comp_apply, heq] at hx
  · rfl

theorem shares_punctuated (l : Locale) (hx : x ∈ foreignChars) :
    Rewrites (Shares x) (punctuated l) := by
  intro before c cs s h
  obtain ⟨keep, mark, hkeep, hmark, hplain⟩ := plainNumber_spec l (c :: cs.take s.more)
  have hpoint : x ≠ '.' := fun heq => (foreignChars_facts x hx).2.2 (heq ▸ by simp)
  have hcomma : x ≠ ',' := fun heq => (foreignChars_facts x hx).2.2 (heq ▸ by simp)
  have hkept : keep x = true := by simpa [hpoint, hcomma] using hkeep x
  have hself : mark x = x := by simpa [hcomma] using hmark x
  rw [Shares, punctuated_spec h, hplain, List.mem_map]
  constructor
  · exact fun hmem => ⟨x, List.mem_filter.2 ⟨hmem, hkept⟩, hself⟩
  · rintro ⟨y, hy, heq⟩
    rcases hmark y with hsame | ⟨-, hpointed⟩
    · rw [hsame] at heq
      exact heq ▸ List.mem_of_mem_filter hy
    · exact absurd (heq.symm.trans hpointed) hpoint

end

/-! ### Degrees and symbols -/

section
variable {before : Option Char} {c : Char} {cs : List Char} {s : Stretch}

theorem degreeScale_spec {scale : Char} (h : degreeScale scale before c cs = some s) :
    c = degreeSign ∧ (∃ blanks, (∀ b ∈ blanks, isBlank b = true) ∧
      cs.take s.more = blanks ++ [scale]) ∧ s.replacement = [' ', scale] := by
  unfold degreeScale at h
  split at h
  · next hc =>
    split at h
    · next d rest hdrop =>
      split at h
      · next hscale =>
        cases h
        refine ⟨hc, ⟨cs.takeWhile isBlank, fun b hb => mem_takeWhile hb, ?_⟩, rfl⟩
        have hcs : cs.takeWhile isBlank ++ [scale] ++ rest = cs := by
          rw [List.append_assoc, List.singleton_append, ← hscale.1, ← hdrop,
            List.takeWhile_append_dropWhile]
        have htake := List.prefix_iff_eq_take.1 ⟨rest, hcs⟩
        rw [List.length_append] at htake
        exact htake.symm
      · cases h
    · cases h
  · cases h

theorem isPrefix_amountAt (cs : List Char) : amountAt cs <+: cs := by
  have hfraction : ∀ ds : List Char, fractionAt ds <+: ds := by
    intro ds
    unfold fractionAt
    split
    · split
      · exact List.nil_prefix
      · exact List.cons_prefix_cons.2 ⟨rfl, List.takeWhile_prefix isDecimal⟩
    · exact List.nil_prefix
  unfold amountAt
  dsimp only
  split
  · exact List.nil_prefix
  · conv_rhs => rw [← List.takeWhile_append_dropWhile (p := isDecimal) (l := cs)]
    exact (List.prefix_append_right_inj _).2 (hfraction _)

theorem amountAt_ne_nil {c : Char} (hc : isDecimal c = true) (cs : List Char) :
    amountAt (c :: cs) ≠ [] := by
  rw [amountAt, List.takeWhile_cons_of_pos hc, if_neg (List.cons_ne_nil _ _)]
  exact List.cons_ne_nil _ _

theorem isPrefix_scaleAt (cs : List Char) : scaleAt cs <+: cs := by
  unfold scaleAt
  dsimp only
  split
  · next w hw =>
    have hfound := List.find?_some hw
    have hstarts := (Bool.and_eq_true_iff.1 hfound).1
    conv_rhs => rw [← List.takeWhile_append_dropWhile (p := isBlank) (l := cs)]
    exact (List.prefix_append_right_inj _).2 (List.isPrefixOf_iff_prefix.1 hstarts)
  · exact List.nil_prefix

theorem symbolBefore_spec (h : symbolBefore before c cs = some s) :
    ∃ code blanks scaled, Currency.ofSymbol? c = some code ∧ (∀ b ∈ blanks, isBlank b = true) ∧
      cs.take s.more = blanks ++ scaled ∧ s.replacement = scaled ++ ' ' :: code.toList := by
  unfold symbolBefore at h
  split at h
  · cases h
  · next code hcode =>
    dsimp only at h
    split at h
    · cases h
    · cases h
      generalize hamount : amountAt (cs.dropWhile isBlank) = amount
      refine ⟨code, cs.takeWhile isBlank, _, hcode, fun b hb => mem_takeWhile hb, ?_, rfl⟩
      obtain ⟨behind, hbehind⟩ := hamount ▸ isPrefix_amountAt (cs.dropWhile isBlank)
      obtain ⟨rest, hrest⟩ := isPrefix_scaleAt behind
      have hdrop : (cs.dropWhile isBlank).drop amount.length = behind := by
        rw [← hbehind, List.drop_left]
      have hcs : cs.takeWhile isBlank ++ (amount ++ scaleAt behind) ++ rest = cs := by
        rw [List.append_assoc, List.append_assoc, hrest, hbehind, List.takeWhile_append_dropWhile]
      dsimp only
      rw [hdrop, ← List.length_append]
      exact (List.prefix_iff_eq_take.1 ⟨rest, hcs⟩).symm

theorem symbolAfter_spec (h : symbolAfter before c cs = some s) :
    s.replacement = c :: cs.take s.more ∨
      ∃ amount blanks symbol code, Currency.ofSymbol? symbol = some code ∧
        (∀ b ∈ blanks, isBlank b = true) ∧ c :: cs.take s.more = amount ++ (blanks ++ [symbol]) ∧
          s.replacement = amount ++ ' ' :: code.toList := by
  have hrun : c :: cs.takeWhile isDecimal = c :: cs.take (cs.takeWhile isDecimal).length := by
    rw [take_length_takeWhile]
  unfold symbolAfter at h
  split at h
  · next hc =>
    dsimp only at h
    obtain ⟨behind, hbehind⟩ := isPrefix_amountAt (c :: cs)
    have hne := amountAt_ne_nil hc cs
    have hdrop := (cons_take_eq hbehind.symm hne).2
    rw [hdrop] at h
    split at h
    · next symbol rest hsymbol =>
      split at h
      · next code hcode =>
        cases h
        refine .inr ⟨amountAt (c :: cs), behind.takeWhile isBlank, symbol, code, hcode,
          fun b hb => mem_takeWhile hb, ?_, rfl⟩
        have hcs : c :: cs = amountAt (c :: cs) ++ (behind.takeWhile isBlank ++ [symbol]) ++ rest := by
          rw [List.append_assoc, List.append_assoc, List.singleton_append, ← hsymbol,
            List.takeWhile_append_dropWhile, hbehind]
        have htake := (cons_take_eq hcs (List.append_ne_nil_of_left_ne_nil hne _)).1
        rw [List.length_append, List.length_append, List.length_singleton, ← Nat.add_assoc,
          Nat.add_sub_cancel] at htake
        exact htake
      · cases h
        exact .inl hrun
    · cases h
      exact .inl hrun
  · cases h

end

end Reckoner.Spelling

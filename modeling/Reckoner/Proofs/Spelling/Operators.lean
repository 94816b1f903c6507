import Reckoner.Proofs.Spelling.Comments
import Reckoner.Proofs.Spelling.Fences

/-!
# Operators between two texts

An operator between blanks stays where it is through all rules, and each rule goes over the texts on
its two sides as if they were alone (`Carries`). An operator word becomes its sign at its own turn
(`carries_own`); the rules before it leave the word alone (`carries_phrase`) and those behind it the
sign (`Fenced.carries_sign`).
-/

namespace Reckoner.Spelling

open Text (isBlank isDecimal isWordChar)

/-! ### Texts around an operator -/

/-- The three texts in a row, with blanks on both sides of the middle one. There need not be blanks at
an end of the text. -/
inductive Joined (left mid right : List Char) : List Char → Prop where
  | mk {gap gap'} : (∀ b ∈ gap, isBlank b = true) → (∀ b ∈ gap', isBlank b = true) →
      (gap = [] → left = []) → (gap' = [] → right = []) →
      Joined left mid right (left ++ (gap ++ (mid ++ (gap' ++ right))))

/-- The function works on both sides of `mid` as on texts of their own, and makes `mid'` of it. -/
def Carries (f : List Char → List Char) (mid mid' : List Char) : Prop :=
  ∀ ⦃left right cs⦄, Joined left mid right cs → Joined (f left) mid' (f right) (f cs)

theorem Carries.comp {f g : List Char → List Char} {mid mid' mid'' : List Char}
    (hf : Carries f mid mid') (hg : Carries g mid' mid'') : Carries (fun cs => g (f cs)) mid mid'' :=
  fun _ _ _ h => hg (hf h)

/-- The text starts and ends with characters that are no blanks. -/
structure Solid (mid : List Char) : Prop where
  first : mid.head?.any (!isBlank ·) = true
  last : mid.reverse.head?.any (!isBlank ·) = true

namespace Joined
variable {left mid right cs : List Char}

/-- Blanks around the middle text belong to the gaps. -/
theorem widen {before behind : List Char} (hbefore : ∀ b ∈ before, isBlank b = true)
    (hbehind : ∀ b ∈ behind, isBlank b = true) (h : Joined left (before ++ (mid ++ behind)) right cs) :
    Joined left mid right cs := by
  obtain @⟨gap, gap', hgap, hgap', hleft, hright⟩ := h
  have hwide : Joined left mid right (left ++ ((gap ++ before) ++ (mid ++ ((behind ++ gap') ++ right)))) := by
    refine .mk (List.forall_mem_append.2 ⟨hgap, hbefore⟩) (List.forall_mem_append.2 ⟨hbehind, hgap'⟩)
      (fun hnil => hleft (List.append_eq_nil_iff.1 hnil).1)
      (fun hnil => hright (List.append_eq_nil_iff.1 hnil).2)
  simpa using hwide

theorem map {f : Char → Char} (hf : ∀ b, isBlank b = true → isBlank (f b) = true)
    (h : Joined left mid right cs) : Joined (left.map f) (mid.map f) (right.map f) (cs.map f) := by
  obtain @⟨gap, gap', hgap, hgap', hleft, hright⟩ := h
  have hblank : ∀ {bs : List Char}, (∀ b ∈ bs, isBlank b = true) →
      ∀ b ∈ bs.map f, isBlank b = true := by
    intro bs hbs b hb
    obtain ⟨c, hc, rfl⟩ := List.mem_map.1 hb
    exact hf c (hbs c hc)
  simp only [List.map_append]
  refine .mk (hblank hgap) (hblank hgap') (fun hnil => ?_) fun hnil => ?_
  · rw [hleft (List.map_eq_nil_iff.1 hnil), List.map_nil]
  · rw [hright (List.map_eq_nil_iff.1 hnil), List.map_nil]

theorem reverse (h : Joined left mid right cs) :
    Joined right.reverse mid.reverse left.reverse cs.reverse := by
  obtain @⟨gap, gap', hgap, hgap', hleft, hright⟩ := h
  have hreverse : Joined right.reverse mid.reverse left.reverse
      (right.reverse ++ (gap'.reverse ++ (mid.reverse ++ (gap.reverse ++ left.reverse)))) := by
    refine .mk (by simpa using hgap') (by simpa using hgap) (fun hnil => ?_) fun hnil => ?_
    · rw [hright (List.reverse_eq_nil_iff.1 hnil), List.reverse_nil]
    · rw [hleft (List.reverse_eq_nil_iff.1 hnil), List.reverse_nil]
  simpa using hreverse

theorem trimLeft (hmid : mid.head?.any (!isBlank ·) = true) (h : Joined left mid right cs) :
    Joined (Text.trimLeft left) mid right (Text.trimLeft cs) := by
  obtain @⟨gap, gap', hgap, hgap', hleft, hright⟩ := h
  unfold Text.trimLeft
  by_cases hblank : ∀ b ∈ left, isBlank b = true
  · have hmid' : (mid ++ (gap' ++ right)).dropWhile isBlank = mid ++ (gap' ++ right) := by
      cases mid with
      | nil => cases hmid
      | cons m mid =>
        have hm : isBlank m = false := by simpa using hmid
        rw [List.cons_append, List.dropWhile_cons_of_neg (by simp [hm])]
    rw [List.dropWhile_append_of_pos hblank, List.dropWhile_append_of_pos hgap, hmid',
      List.dropWhile_eq_nil_iff.2 hblank]
    have hnone : ∀ b ∈ ([] : List Char), isBlank b = true := by simp
    exact .mk hnone hgap' (fun _ => rfl) hright
  · have hne : left.dropWhile isBlank ≠ [] := fun hnil => hblank (List.dropWhile_eq_nil_iff.1 hnil)
    rw [List.dropWhile_append, if_neg (by simpa using hne)]
    exact .mk hgap hgap' (fun hnil => by rw [hleft hnil]; rfl) hright

theorem trim (hmid : Solid mid) (h : Joined left mid right cs) :
    Joined (Text.trimLeft left) mid (Text.trimRight right) (Text.trim cs) := by
  have hreverse := ((h.trimLeft hmid.first).reverse.trimLeft hmid.last).reverse
  simpa [Text.trim, Text.trimRight, Text.trimLeft] using hreverse

end Joined

/-! ### Rules around an operator -/

@[simp] theorem sweep_nil (rule : Rule) : sweep rule [] = [] := by
  rw [sweep, sweepFrom_nil]

/-- In front of blanks, or at the end of the text, the rule makes `mid'` of `mid`. -/
def Turns (rule : Rule) (mid mid' : List Char) : Prop :=
  ∀ ⦃rest⦄, rest.head?.all isBlank = true → sweep rule (mid ++ rest) = mid' ++ sweep rule rest

theorem gapped_append {gap right : List Char} (hgap : ∀ b ∈ gap, isBlank b = true)
    (hright : gap = [] → right = []) : (gap ++ right).head?.all isBlank = true := by
  cases gap with
  | nil => simp [hright rfl]
  | cons b gap => exact hgap b (List.mem_cons_self ..)

/-- The operator is the fence in front of which the rule goes over what stands before it. -/
theorem Fenced.carries {P : Char → Prop} {rule : Rule} (h : Fenced P rule) {mid mid' : List Char}
    (hfirst : mid.head?.any (!isBlank ·) = true) (hP : ∀ m ∈ mid.head?, P m)
    (hturns : Turns rule mid mid') : Carries (sweep rule) mid mid' := by
  intro left right cs hjoined
  obtain @⟨gap, gap', hgap, hgap', hleft, hright⟩ := hjoined
  have hbehind : sweep rule (mid ++ (gap' ++ right)) = mid' ++ (gap' ++ sweep rule right) := by
    rw [hturns (gapped_append hgap' hright), h.sweep_gap hgap']
  have hswept : sweep rule (left ++ (gap ++ (mid ++ (gap' ++ right)))) =
      sweep rule left ++ (gap ++ (mid' ++ (gap' ++ sweep rule right))) := by
    by_cases hnil : gap = []
    · simp [hnil, hleft hnil, hbehind]
    · obtain ⟨m, hm, hblank⟩ := (Option.any_eq_true _ _).1 hfirst
      obtain ⟨rest, rfl⟩ := List.head?_eq_some_iff.1 hm
      have hm : isBlank m = false := by simpa using hblank
      have hfence : Fence P (gap ++ (m :: rest ++ (gap' ++ right))) := .mk hnil hgap hm (hP m rfl)
      rw [h.sweep_append hfence, h.sweep_gap hgap, hbehind]
  rw [hswept]
  exact .mk hgap hgap' (fun hnil => by simp [hleft hnil]) fun hnil => by simp [hright hnil]

/-! ### Signs -/

/-- A rule that does not fire at a sign leaves it where it is. -/
theorem Fenced.carries_sign {P : Char → Prop} {rule : Rule} (h : Fenced P rule) {sign : Char}
    (hsign : sign ∈ operatorSigns) (hP : P sign) (hquiet : ∀ before cs, rule before sign cs = none) :
    Carries (sweep rule) [sign] [sign] := by
  refine h.carries ?_ (by simpa using hP) fun rest hrest => ?_
  · simp [(sign_facts sign hsign).1]
  · rw [List.singleton_append, sweep, sweepFrom_cons, hquiet]
    dsimp only
    rw [h.sweepFrom_gapped hrest]
    rfl

/-! ### The words of operators -/

/-- A word of an operator differs from all number words and from the first words of other operators,
and its phrase starts with another letter than the words behind the first one of a phrase. -/
theorem operatorWords_differ : ∀ e ∈ operatorWords,
    (∀ w ∈ e.1, w.toList ≠ [] ∧ (∀ n ∈ numberWords, mismatch (· == ·) n.1 w.toList = true) ∧
      ∀ e' ∈ operatorWords, e' ≠ e → e'.1.head?.any (mismatch (· == ·) · w.toList) = true) ∧
    ∀ w ∈ e.1.head?, ∀ e' ∈ operatorWords, ∀ v ∈ e'.1.tail,
      mismatch (· == ·) v (w.toList.take 1) = true := by
  decide +kernel

/-- The forms of letters: the two ASCII forms, the long s and the Kelvin sign. -/
def letterForms : List Char :=
  letters ++ (letters.map Char.toUpper ++ [Char.ofNat 0x17F, Char.ofNat 0x212A])

theorem mem_letterForms {p c : Char} (hp : p ∈ letters) (h : foldsTo p c = true) :
    c ∈ letterForms := by
  simp only [foldsTo, Bool.or_eq_true, Bool.and_eq_true, beq_iff_eq] at h
  rcases h with (heither | ⟨-, hlong⟩) | ⟨-, hkelvin⟩
  · have hascii : ∀ n < 128, (Char.ofNat n).toLower ∈ letters → Char.ofNat n ∈ letterForms := by
      decide +kernel
    have hletters : ∀ q ∈ letters, q.toNat < 128 := List.all_iff_forall_prop.1 (by decide)
    have hlower : c.toLower = p := beq_iff_eq.1 heither
    exact of_ascii (P := fun c => c.toLower ∈ letters → c ∈ letterForms) hascii
      (toNat_lt_of_toLower (hlower ▸ hletters p hp)) (hlower ▸ hp)
  · rw [← Char.ofNat_toNat c, hlong]
    simp [letterForms]
  · rw [← Char.ofNat_toNat c, hkelvin]
    simp [letterForms]

/-- The forms of letters are parts of words, and different letters have different forms. -/
theorem letterForms_facts : ∀ c ∈ letterForms, isWordChar c = true ∧
    (letters.filter (foldsTo · c)).length = 1 :=
  List.all_iff_forall_prop.1 (by decide +kernel)

theorem foldsTo_unique {p q c : Char} (hp : p ∈ letters) (hq : q ∈ letters)
    (hpc : foldsTo p c = true) (hqc : foldsTo q c = true) : p = q := by
  obtain ⟨x, hx⟩ := List.length_eq_one_iff.1 (letterForms_facts c (mem_letterForms hp hpc)).2
  have honly : ∀ r ∈ letters, foldsTo r c = true → r = x := by
    intro r hr hrc
    have hmem : r ∈ letters.filter (foldsTo · c) := List.mem_filter.2 ⟨hr, hrc⟩
    rwa [hx, List.mem_singleton] at hmem
  rw [honly p hp hpc, honly q hq hqc]

theorem isWordChar_of_spells {w word : List Char} (hw : ∀ p ∈ w, p ∈ letters)
    (hspells : Spells foldsTo w word) : ∀ c ∈ word, isWordChar c = true := by
  intro c hc
  obtain ⟨p, hp, hfolds⟩ := hspells.exists_letter hc
  exact (letterForms_facts c (mem_letterForms (hw p hp) hfolds)).1

/-- Where two words differ, the forms of one are none of the other. -/
theorem mismatch_of_spells {v : String} {w word : List Char} (hv : Lettered v)
    (hw : ∀ p ∈ w, p ∈ letters) (hspells : Spells foldsTo w word)
    (hdiffer : mismatch (· == ·) v w = true) : mismatch foldsTo v word = true := by
  have hzip : ∀ vs : List Char, (∀ p ∈ vs, p ∈ letters) →
      (vs.zip w).any (fun e => !(e.1 == e.2)) = true →
        (vs.zip word).any (fun e => !foldsTo e.1 e.2) = true := by
    clear hdiffer
    induction hspells with
    | nil => simp
    | @cons q c w word hq _ ih =>
      obtain ⟨hqmem, hw⟩ := List.forall_mem_cons.1 hw
      intro vs hvs hany
      cases vs with
      | nil => simp at hany
      | cons p vs =>
        obtain ⟨hp, hvs⟩ := List.forall_mem_cons.1 hvs
        rw [List.zip_cons_cons, List.any_cons, Bool.or_eq_true] at hany ⊢
        rcases hany with hpq | hany
        · have hne : p ≠ q := by simpa using hpq
          have hfolds : foldsTo p c ≠ true := fun hpc => hne (foldsTo_unique hp hqmem hpc hq)
          simp [hfolds]
        · exact .inr (ih hw vs hvs hany)
  exact hzip v.toList (fun _ => hv.mem) hdiffer

theorem mismatch_isEitherCase {w : String} {start : List Char} (h : mismatch foldsTo w start = true) :
    mismatch isEitherCase w start = true := by
  obtain ⟨e, he, hfolds⟩ := List.any_eq_true.1 h
  refine List.any_eq_true.2 ⟨e, he, ?_⟩
  simp only [Bool.not_eq_true'] at hfolds ⊢
  exact Bool.eq_false_iff.2 fun hcase => Bool.eq_false_iff.1 hfolds (foldsTo_of_isEitherCase hcase)

/-! ### Rules in front of words -/

theorem phraseLength?_inside {same : Char → Char → Bool} {ws : List String} {before : Option Char}
    (hbefore : opensWord before = false) (cs : List Char) : phraseLength? same ws before cs = none := by
  simp [phraseLength?, hbefore]

theorem numberWord_eq_none {c : Char} {cs start : List Char} (hstart : start <+: c :: cs)
    (h : ∀ n ∈ numberWords, mismatch foldsTo n.1 start = true) (before : Option Char) :
    numberWord before c cs = none := by
  obtain ⟨rest, hcs⟩ := hstart
  refine List.findSome?_eq_none_iff.2 ?_
  rintro ⟨w, n⟩ he
  have hfirst : [w].head?.any (mismatch isEitherCase · start) = true := mismatch_isEitherCase (h _ he)
  have hnone := afterPhrase?_eq_none hfirst rest
  dsimp only
  rw [phraseLength?_eq_none (by rw [← hcs, hnone]; rfl)]
  rfl

theorem operatorWord_eq_none {ws : List String} {c : Char} {cs start : List Char}
    (hstart : start <+: c :: cs) (h : ws.head?.any (mismatch foldsTo · start) = true) (sign : Char)
    (before : Option Char) : operatorWord ws sign before c cs = none := by
  obtain ⟨rest, hcs⟩ := hstart
  have hnone := afterPhrase?_eq_none h rest
  rw [operatorWord, phraseLength?_eq_none (by rw [← hcs, hnone]; rfl)]
  rfl

namespace Fenced
variable {P : Char → Prop} {rule : Rule} (h : Fenced P rule)
include h

/-- A rule that finds nothing at the start of a word leaves it, since it does not look inside. -/
theorem turns_word (hinside : ∀ before c cs, opensWord before = false → rule before c cs = none)
    {word : List Char} (hword : ∀ c ∈ word, isWordChar c = true)
    (hstart : ∀ c cs rest, word = c :: cs → rule none c (cs ++ rest) = none) :
    Turns rule word word := by
  intro rest hrest
  have htail : ∀ (cs : List Char) (c : Char), isWordChar c = true →
      (∀ d ∈ cs, isWordChar d = true) →
        sweepFrom rule (some c) (cs ++ rest) [] = cs ++ sweep rule rest := by
    intro cs
    induction cs with
    | nil => exact fun c _ _ => h.sweepFrom_gapped hrest (some c)
    | cons d cs ih =>
      intro c hc hcs
      obtain ⟨hd, hcs⟩ := List.forall_mem_cons.1 hcs
      have hinner : opensWord (some c) = false := by simp [opensWord, hc]
      rw [List.cons_append, sweepFrom_cons, hinside _ _ _ hinner]
      dsimp only
      rw [ih d hd hcs]
      rfl
  cases word with
  | nil => rfl
  | cons c cs =>
    obtain ⟨hc, hcs⟩ := List.forall_mem_cons.1 hword
    rw [List.cons_append, sweep, sweepFrom_cons, hstart c cs rest rfl]
    dsimp only
    rw [htail cs c hc hcs]
    rfl

/-- A rule that leaves the words leaves the phrase. -/
theorem turns_phrase {same : Char → Char → Bool} {ws : List String} {phrase : List Char}
    (hphrase : Phrase same ws phrase)
    (hwords : ∀ w ∈ ws, ∀ word, Spells same w.toList word → Turns rule word word) :
    Turns rule phrase phrase := by
  induction hphrase with
  | nil => exact fun rest _ => rfl
  | word hspells => exact hwords _ (List.mem_cons_self ..) _ hspells
  | @words w w' ws word blanks ds hspells hne hblanks hphrase ih =>
    intro rest hrest
    have hgapped : (blanks ++ (ds ++ rest)).head?.all isBlank = true :=
      gapped_append hblanks fun hnil => absurd hnil hne
    have hword := hwords w (List.mem_cons_self ..) word hspells hgapped
    have hbehind := ih (fun v hv => hwords v (List.mem_cons_of_mem _ hv)) hrest
    rw [List.append_assoc, List.append_assoc, hword, h.sweep_gap hblanks, hbehind]
    simp

end Fenced

/-! ### The operator's turn -/

theorem Phrase.exists_cons {same : Char → Char → Bool} {w : String} {ws : List String}
    {phrase : List Char} (h : Phrase same (w :: ws) phrase) (hne : w.toList ≠ []) :
    ∃ p c cs, w.toList.take 1 = [p] ∧ phrase = c :: cs ∧ same p c = true := by
  have hhead : ∀ {ps cs : List Char}, ps ≠ [] → Spells same ps cs → ∀ ds,
      ∃ p c cs', ps.take 1 = [p] ∧ cs ++ ds = c :: cs' ∧ same p c = true := by
    intro ps cs hps hspells ds
    cases hspells with
    | nil => exact absurd rfl hps
    | cons hp _ => exact ⟨_, _, _, by simp, rfl, hp⟩
  cases h with
  | word hspells => simpa using hhead hne hspells []
  | words hspells => exact hhead hne hspells _

theorem Phrase.getLast?_any {same : Char → Char → Bool} {ws : List String} {phrase : List Char}
    (h : Phrase same ws phrase) (hws : ∀ w ∈ ws, w.toList ≠ [] ∧ Blankless same w) (hne : ws ≠ []) :
    phrase.getLast?.any (!isBlank ·) = true := by
  induction h with
  | nil => exact absurd rfl hne
  | @word w cs hspells =>
    obtain ⟨hne', hblankless⟩ := hws w (List.mem_cons_self ..)
    have hcs : cs ≠ [] := by
      rintro rfl
      exact hne' (List.forall₂_nil_right_iff.1 hspells)
    obtain ⟨p, hp, hsame⟩ := hspells.exists_letter (List.getLast_mem hcs)
    have hblank : isBlank (cs.getLast hcs) = false :=
      Bool.eq_false_iff.2 fun hb => by cases (hblankless p hp _ hb).symm.trans hsame
    simp [List.getLast?_eq_some_getLast hcs, hblank]
  | @words w w' ws cs blanks ds _ _ _ _ ih =>
    have hlast := ih (fun v hv => hws v (List.mem_cons_of_mem _ hv)) (List.cons_ne_nil w' ws)
    obtain ⟨d, hd, hblank⟩ := (Option.any_eq_true _ _).1 hlast
    simpa [List.getLast?_append, hd] using hblank

theorem afterPhrase?_phrase {same : Char → Char → Bool} {ws : List String} {phrase : List Char}
    (hphrase : Phrase same ws phrase) (hws : ∀ w ∈ ws, w.toList ≠ [] ∧ Blankless same w)
    (rest : List Char) : afterPhrase? same ws (phrase ++ rest) = some (phrase.length, rest) := by
  induction hphrase with
  | nil => rfl
  | @word w cs hspells =>
    have hword : afterWord? same w.toList (cs ++ rest) = some rest :=
      afterWord?_eq_some.2 ⟨cs, hspells, rfl⟩
    rw [afterPhrase?, hword, hspells.length_eq]
    rfl
  | @words w w' ws cs blanks ds hspells hne hblanks hphrase ih =>
    obtain ⟨-, hws⟩ := List.forall_mem_cons.1 hws
    obtain ⟨hne', hblankless⟩ := hws w' (List.mem_cons_self ..)
    have hword : afterWord? same w.toList (cs ++ (blanks ++ ds) ++ rest) = some (blanks ++ (ds ++ rest)) :=
      afterWord?_eq_some.2 ⟨cs, hspells, by simp⟩
    have hstart : ∀ c behind, ds ++ rest = c :: behind → isBlank c = false := by
      obtain ⟨p, d, ds', hp, rfl, hsame⟩ := hphrase.exists_cons hne'
      have hmem : p ∈ w'.toList := List.mem_of_mem_take (hp ▸ List.mem_singleton_self p)
      rintro _ _ ⟨⟩
      refine Bool.eq_false_iff.2 fun hblank => ?_
      cases (hblankless p hmem d hblank).symm.trans hsame
    obtain ⟨htake, hdrop⟩ := takeWhile_dropWhile_append hblanks hstart
    rw [afterPhrase?.eq_3 _ _ _ _ (List.cons_ne_nil w' ws), hword]
    dsimp only
    rw [htake, hdrop, ih hws]
    simp [hne, hspells.length_eq, Nat.add_assoc]

section
variable {ws : List String} {sign : Char} (he : (ws, sign) ∈ operatorWords) {phrase : List Char}
  (hphrase : Phrase foldsTo ws phrase)
include he hphrase

omit hphrase in
theorem blankless_operatorWords : ∀ w ∈ ws, w.toList ≠ [] ∧ Blankless foldsTo w := fun w hw =>
  ⟨((operatorWords_differ _ he).1 w hw).1, blankless_foldsTo ((operatorWords_facts _ he).2.2 w hw)⟩

/-- The phrase starts with a letter that starts no word behind the first one of a phrase. -/
theorem phrase_start : phrase.head?.any (!isBlank ·) = true ∧ ∀ m ∈ phrase.head?, BreaksPhrases m := by
  obtain ⟨hwords, hfirst⟩ := operatorWords_differ _ he
  obtain ⟨-, hlong, hletters⟩ := operatorWords_facts _ he
  obtain ⟨w, hhead, -⟩ := (Option.any_eq_true _ _).1 hlong
  obtain ⟨ws, rfl⟩ := List.head?_eq_some_iff.1 hhead
  have hw := List.mem_cons_self (a := w) (l := ws)
  obtain ⟨p, c, cs, hp, rfl, hfolds⟩ := hphrase.exists_cons (hwords w hw).1
  have hmem : p ∈ letters := (hletters w hw).mem (List.mem_of_mem_take (hp ▸ List.mem_singleton_self p))
  have hspells : Spells foldsTo [p] [c] := .cons hfolds .nil
  refine ⟨by simp [isBlank_of_foldsTo hmem hfolds], fun m hm e he' v hv => ?_⟩
  cases hm
  exact mismatch_of_spells ((operatorWords_facts e he').2.2 v (List.mem_of_mem_tail hv))
    (by simpa using hmem) hspells (hp ▸ hfirst w rfl e he' v hv)

/-- A rule for words leaves the phrase if it finds nothing where a word of the phrase starts. -/
theorem carries_phrase {P : Char → Prop} {rule : Rule} (h : Fenced P rule)
    (hP : ∀ m, BreaksPhrases m → P m)
    (hinside : ∀ before c cs, opensWord before = false → rule before c cs = none)
    (hstart : ∀ w ∈ ws, ∀ c cs rest, Spells foldsTo w.toList (c :: cs) →
      rule none c (cs ++ rest) = none) : Carries (sweep rule) phrase phrase := by
  obtain ⟨hfirst, hbreaks⟩ := phrase_start he hphrase
  refine h.carries hfirst (fun m hm => hP m (hbreaks m hm)) (h.turns_phrase hphrase ?_)
  intro w hw word hspells
  have hletters := (operatorWords_facts _ he).2.2 w hw
  refine h.turns_word hinside (isWordChar_of_spells (fun _ => hletters.mem) hspells) ?_
  rintro c cs rest rfl
  exact hstart w hw c cs rest hspells

theorem carries_numberWords : Carries replaceNumberWords phrase phrase := by
  refine carries_phrase he hphrase fenced_numberWord (fun _ _ => trivial) ?_ ?_
  · intro before c cs hbefore
    refine List.findSome?_eq_none_iff.2 ?_
    rintro ⟨w, n⟩ -
    dsimp only
    rw [phraseLength?_inside hbefore]
    rfl
  · intro w hw c cs rest hspells
    have hletters := (operatorWords_facts _ he).2.2 w hw
    refine numberWord_eq_none (List.prefix_append (c :: cs) rest) (fun n hn => ?_) none
    exact mismatch_of_spells (numberWords_facts n hn).1 (fun _ => hletters.mem) hspells
      (((operatorWords_differ _ he).1 w hw).2.1 n hn)

theorem carries_others {e : List String × Char} (he' : e ∈ operatorWords) (hne : e ≠ (ws, sign)) :
    Carries (sweep (operatorWord e.1 e.2)) phrase phrase := by
  refine carries_phrase he hphrase (fenced_operatorWord he') (fun _ h => h) ?_ ?_
  · intro before c cs hbefore
    rw [operatorWord, phraseLength?_inside hbefore]
    rfl
  · intro w hw c cs rest hspells
    have hletters := (operatorWords_facts _ he).2.2 w hw
    refine operatorWord_eq_none (List.prefix_append (c :: cs) rest) ?_ e.2 none
    have hdiffer := ((operatorWords_differ _ he).1 w hw).2.2 e he' hne
    obtain ⟨v, hv, hdiffer⟩ := (Option.any_eq_true _ _).1 hdiffer
    have hv' : Lettered v := (operatorWords_facts e he').2.2 v (List.mem_of_mem_head? hv)
    rw [hv]
    exact mismatch_of_spells hv' (fun _ => hletters.mem) hspells hdiffer

/-- The phrase becomes its sign. -/
theorem carries_own : Carries (sweep (operatorWord ws sign)) phrase [sign] := by
  obtain ⟨hfirst, hbreaks⟩ := phrase_start he hphrase
  have hturns : Turns (operatorWord ws sign) phrase [' ', sign, ' '] := by
    intro rest hrest
    obtain ⟨c, hc, -⟩ := (Option.any_eq_true _ _).1 hfirst
    obtain ⟨cs, rfl⟩ := List.head?_eq_some_iff.1 hc
    have hcloses : closesWord rest = true := by
      cases rest with
      | nil => rfl
      | cons b rest => exact closesWord_blank hrest rest
    have hafter := afterPhrase?_phrase hphrase (blankless_operatorWords he) rest
    have hrule : operatorWord ws sign none c (cs ++ rest) = some ⟨cs.length, [' ', sign, ' ']⟩ := by
      rw [operatorWord, phraseLength?, if_pos (show opensWord none = true from rfl), ← List.cons_append,
        hafter]
      simp [hcloses]
    rw [List.cons_append, sweep, sweepFrom_cons, hrule]
    dsimp only
    rw [List.drop_left, (fenced_operatorWord he).sweepFrom_gapped hrest]
  intro left right cs hjoined
  have hspaced := (fenced_operatorWord he).carries hfirst hbreaks hturns hjoined
  exact Joined.widen (List.forall_mem_singleton.2 rfl) (List.forall_mem_singleton.2 rfl) hspaced

end

/-! ### Behind the operator's turn -/

section
variable {sign : Char} (hsign : sign ∈ operatorSigns)
include hsign

/-- No word has an operator sign in it. -/
theorem mismatch_sign {w : String} (hw : Lettered w) (hne : w.toList ≠ []) :
    mismatch foldsTo w [sign] = true := by
  obtain ⟨p, ps, hcons⟩ := List.exists_cons_of_ne_nil hne
  have hp : p ∈ letters := hw.mem (hcons ▸ List.mem_cons_self ..)
  have hfolds := List.all_eq_true.1 (sign_facts sign hsign).2.2.2.2.2.2 p hp
  simpa [mismatch, hcons] using hfolds

theorem carries_operatorWord_sign {e : List String × Char} (he : e ∈ operatorWords) :
    Carries (sweep (operatorWord e.1 e.2)) [sign] [sign] := by
  have hmismatch : ∀ e ∈ operatorWords, ∀ w ∈ e.1, mismatch foldsTo w [sign] = true := fun e he w hw =>
    mismatch_sign hsign ((operatorWords_facts e he).2.2 w hw) ((operatorWords_differ e he).1 w hw).1
  refine (fenced_operatorWord he).carries_sign hsign
    (fun e he w hw => hmismatch e he w (List.mem_of_mem_tail hw)) fun before cs => ?_
  refine operatorWord_eq_none (List.prefix_append [sign] cs) ?_ e.2 before
  obtain ⟨w, hw, -⟩ := (Option.any_eq_true _ _).1 (operatorWords_facts e he).2.1
  rw [hw]
  exact hmismatch e he w (List.mem_of_mem_head? hw)

theorem carries_degrees : Carries replaceDegrees [sign] [sign] := by
  obtain ⟨-, -, -, -, hdegree, -⟩ := sign_facts sign hsign
  have hscale : ∀ scale, scale ∉ operatorSigns → Carries (sweep (degreeScale scale)) [sign] [sign] :=
    fun scale h => (fenced_degreeScale h).carries_sign hsign hsign fun _ _ => if_neg hdegree
  have halone : Carries (sweep degreeAlone) [sign] [sign] :=
    fenced_degreeAlone.carries_sign hsign hsign fun _ _ => if_neg hdegree
  exact ((hscale 'C' (by decide)).comp (hscale 'F' (by decide))).comp halone

theorem carries_underscores : Carries removeUnderscores [sign] [sign] :=
  fenced_underscored.carries_sign hsign hsign fun before cs => by
    simp [underscored, (sign_facts sign hsign).2.1]

theorem carries_numbers (l : Locale) : Carries (normalizeNumbers l) [sign] [sign] := by
  obtain ⟨-, hdecimal, -⟩ := sign_facts sign hsign
  have hspaced : Carries (sweep spaced) [sign] [sign] :=
    fenced_spaced.carries_sign hsign hsign fun before cs => by simp [spaced, hdecimal]
  have hpunctuated : Carries (sweep (punctuated l)) [sign] [sign] :=
    (fenced_punctuated l).carries_sign hsign hsign fun before cs => by simp [punctuated, hdecimal]
  intro left right cs hjoined
  unfold normalizeNumbers
  split
  · exact hpunctuated (hspaced hjoined)
  · exact hpunctuated hjoined

theorem carries_symbols : Carries replaceSymbols [sign] [sign] := by
  obtain ⟨-, hdecimal, -, -, -, hsymbol, -⟩ := sign_facts sign hsign
  have hbefore : Carries (sweep symbolBefore) [sign] [sign] :=
    fenced_symbolBefore.carries_sign hsign hsign fun before cs => by simp [symbolBefore, hsymbol]
  have hafter : Carries (sweep symbolAfter) [sign] [sign] :=
    fenced_symbolAfter.carries_sign hsign hsign fun before cs => by simp [symbolAfter, hdecimal]
  have halone : Carries (sweep symbolAlone) [sign] [sign] :=
    fenced_symbolAlone.carries_sign hsign hsign fun before cs => by simp [symbolAlone, hsymbol]
  exact (hbefore.comp hafter).comp halone

theorem carries_numberWords_sign : Carries replaceNumberWords [sign] [sign] :=
  fenced_numberWord.carries_sign hsign trivial fun before cs => by
    refine numberWord_eq_none (List.prefix_append [sign] cs) (fun n hn => ?_) before
    obtain ⟨hletters, hlong⟩ := numberWords_facts n hn
    exact mismatch_sign hsign hletters (List.length_pos_iff.1 (Nat.zero_lt_of_lt hlong))

/-- What the rules behind those for words make of a text. -/
theorem carries_rest (l : Locale) : Carries
    (fun cs => replaceSymbols (normalizeNumbers l (removeUnderscores (replaceDegrees cs)))) [sign] [sign] :=
  (((carries_degrees hsign).comp (carries_underscores hsign)).comp (carries_numbers hsign l)).comp
    (carries_symbols hsign)

end

section
variable {ws : List String} {sign : Char} (he : (ws, sign) ∈ operatorWords) {phrase : List Char}
  (hphrase : Phrase foldsTo ws phrase)
include he hphrase

/-- The rules for the other operators leave the phrase up to its own rule, and the sign behind it. -/
theorem carries_operatorWords : Carries replaceOperatorWords [sign] [sign] ∧
    Carries replaceOperatorWords phrase [sign] := by
  have hsign : sign ∈ operatorSigns := (operatorWords_facts _ he).1
  have hfold : ∀ es : List (List String × Char), (∀ e ∈ es, e ∈ operatorWords) →
      Carries (fun cs => es.foldl (fun cs e => sweep (operatorWord e.1 e.2) cs) cs) [sign] [sign] ∧
      ((ws, sign) ∈ es →
        Carries (fun cs => es.foldl (fun cs e => sweep (operatorWord e.1 e.2) cs) cs) phrase [sign]) := by
    intro es
    induction es with
    | nil => exact fun _ => ⟨fun _ _ _ h => h, fun hmem => absurd hmem List.not_mem_nil⟩
    | cons e es ih =>
      intro hes
      obtain ⟨he', hes⟩ := List.forall_mem_cons.1 hes
      obtain ⟨hbehind, hfrom⟩ := ih hes
      refine ⟨(carries_operatorWord_sign hsign he').comp hbehind, fun hmem => ?_⟩
      by_cases hown : e = (ws, sign)
      · rw [hown]
        exact (carries_own he hphrase).comp hbehind
      · have hmem : (ws, sign) ∈ es := (List.mem_cons.1 hmem).resolve_left (Ne.symm hown)
        exact (carries_others he hphrase he' hown).comp (hfrom hmem)
  exact (hfold operatorWords fun _ h => h).imp_right fun h => h he

theorem solid_phrase : Solid phrase := by
  refine ⟨(phrase_start he hphrase).1, ?_⟩
  rw [List.head?_reverse]
  refine hphrase.getLast?_any (blankless_operatorWords he) ?_
  rintro rfl
  exact absurd (operatorWords_facts _ he).2.1 (by simp)

/-- No character of a phrase has a plain form or starts a comment. -/
theorem phrase_facts : ∀ c ∈ phrase, plainSign c = c ∧ c ∉ ['#', '/'] := by
  have hplain : ∀ c ∈ letterForms ++ blankCodes.map Char.ofNat, plainSign c = c ∧ c ∉ ['#', '/'] :=
    List.all_iff_forall_prop.1 (by decide +kernel)
  intro c hc
  refine hplain c (List.mem_append.2 ?_)
  rcases hphrase.blank_or_letter hc with hblank | ⟨w, hw, p, hp, hfolds⟩
  · exact .inr (mem_blankChars hblank)
  · exact .inl (mem_letterForms (((operatorWords_facts _ he).2.2 w hw).mem hp) hfolds)

end

end Reckoner.Spelling

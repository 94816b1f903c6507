import Reckoner.Proofs.Tokenizing

/-!
# Rules in front of an operator

Rules look ahead, over blanks too, but never past an operator that stands between blanks. In front of
it each rule does what it does at the end of a text (`Fenced`), so a sweep goes over the two sides of
the operator as over two texts (`Fenced.sweep_append`).
-/

namespace Reckoner.Spelling

open Text (isBlank isDecimal isWordChar)
open Token (takeWhile_dropWhile_before)

/-! ### Fences -/

/-- A character behind blanks. -/
inductive Fence (P : Char → Prop) : List Char → Prop where
  | mk {gap m rest} : gap ≠ [] → (∀ b ∈ gap, isBlank b = true) → isBlank m = false → P m →
      Fence P (gap ++ m :: rest)

theorem blank_facts : ∀ b ∈ blankCodes.map Char.ofNat, isWordChar b = false ∧ isDecimal b = false ∧
    isNumberChar b = false ∧ b ∉ ['.', ',', '_', degreeSign] ∧ Currency.ofSymbol? b = none :=
  List.all_iff_forall_prop.1 (by decide +kernel)

theorem closesWord_blank {b : Char} (hb : isBlank b = true) (cs : List Char) :
    closesWord (b :: cs) = true := by
  simp [closesWord, (blank_facts b (mem_blankChars hb)).1]

theorem opensWord_blank {b : Char} (hb : isBlank b = true) : opensWord (some b) = true := by
  simp [opensWord, (blank_facts b (mem_blankChars hb)).1]

namespace Fence
variable {P : Char → Prop} {fence : List Char}

theorem exists_cons (h : Fence P fence) : ∃ b rest, fence = b :: rest ∧ isBlank b = true := by
  obtain ⟨hne, hgap, -, -⟩ := h
  obtain ⟨b, gap, rfl⟩ := List.exists_cons_of_ne_nil hne
  exact ⟨b, _, rfl, hgap b (List.mem_cons_self ..)⟩

theorem closesWord_append (h : Fence P fence) (cs : List Char) :
    closesWord (cs ++ fence) = closesWord cs := by
  obtain ⟨b, rest, rfl, hb⟩ := h.exists_cons
  cases cs with
  | nil => exact closesWord_blank hb rest
  | cons c cs => rfl

/-- A run of other characters than blanks ends at a fence. -/
theorem run_append (h : Fence P fence) {p : Char → Bool} (hp : ∀ b, isBlank b = true → p b = false)
    (cs : List Char) : (cs ++ fence).takeWhile p = cs.takeWhile p ∧
      (cs ++ fence).dropWhile p = cs.dropWhile p ++ fence := by
  obtain ⟨b, rest, rfl, hb⟩ := h.exists_cons
  exact takeWhile_dropWhile_before (hp b hb) rest cs

/-- Blanks in front of a fence run on to its character; other blanks end before it. -/
theorem blanks_append (h : Fence P fence) (cs : List Char) :
    (cs.dropWhile isBlank = [] ∧
      ∃ m rest, P m ∧ (cs ++ fence).dropWhile isBlank = m :: rest) ∨
    (cs.dropWhile isBlank ≠ [] ∧ (cs ++ fence).takeWhile isBlank = cs.takeWhile isBlank ∧
      (cs ++ fence).dropWhile isBlank = cs.dropWhile isBlank ++ fence) := by
  induction cs with
  | nil =>
    obtain @⟨gap, m, rest, -, hgap, hm, hP⟩ := h
    refine .inl ⟨rfl, m, rest, hP, ?_⟩
    rw [List.nil_append, List.dropWhile_append_of_pos hgap, List.dropWhile_cons_of_neg (by simp [hm])]
  | cons c cs ih =>
    by_cases hc : isBlank c = true
    · simp only [List.cons_append, List.dropWhile_cons_of_pos hc, List.takeWhile_cons_of_pos hc,
        List.cons.injEq, true_and]
      exact ih
    · simp only [List.cons_append, List.dropWhile_cons_of_neg hc, List.takeWhile_cons_of_neg hc]
      simp

end Fence

/-! ### Rules that stop at a fence -/

/-- What the rule does in front of a fence it does at the end of the text. It leaves blanks alone, and
what is before a text matters only if it is part of a word. -/
structure Fenced (P : Char → Prop) (rule : Rule) : Prop where
  within : ∀ ⦃before c cs s⦄, rule before c cs = some s → s.more ≤ cs.length
  blank : ∀ ⦃b⦄, isBlank b = true → ∀ before cs, rule before b cs = none
  opens : ∀ ⦃before⦄, opensWord before = true → ∀ c cs, rule before c cs = rule none c cs
  ahead : ∀ ⦃fence⦄, Fence P fence → ∀ before c cs, rule before c (cs ++ fence) = rule before c cs

namespace Fenced
variable {P : Char → Prop} {rule : Rule} (h : Fenced P rule)
include h

theorem sweepFrom_opens {before : Option Char} (hbefore : opensWord before = true) (cs : List Char) :
    sweepFrom rule before cs [] = sweep rule cs := by
  cases cs with
  | nil => rw [sweep, sweepFrom_nil, sweepFrom_nil]
  | cons c cs => rw [sweep, sweepFrom_cons, sweepFrom_cons, h.opens hbefore]

/-- What a text starts with is no part of a word before it. -/
theorem sweepFrom_gapped {cs : List Char} (hcs : cs.head?.all isBlank = true) (before : Option Char) :
    sweepFrom rule before cs [] = sweep rule cs := by
  cases cs with
  | nil => rw [sweep, sweepFrom_nil, sweepFrom_nil]
  | cons b cs =>
    have hb : isBlank b = true := hcs
    rw [sweep, sweepFrom_cons, sweepFrom_cons, h.blank hb, h.blank hb]

theorem sweep_gap {gap : List Char} (hgap : ∀ b ∈ gap, isBlank b = true) (cs : List Char) :
    sweep rule (gap ++ cs) = gap ++ sweep rule cs := by
  induction gap with
  | nil => rfl
  | cons b gap ih =>
    obtain ⟨hb, hgap⟩ := List.forall_mem_cons.1 hgap
    rw [List.cons_append, sweep, sweepFrom_cons, h.blank hb]
    dsimp only
    rw [h.sweepFrom_opens (opensWord_blank hb), ih hgap]
    rfl

theorem sweep_append {fence : List Char} (hfence : Fence P fence) (cs : List Char) :
    sweep rule (cs ++ fence) = sweep rule cs ++ sweep rule fence := by
  have hgapped : fence.head?.all isBlank = true := by
    obtain ⟨b, rest, rfl, hb⟩ := hfence.exists_cons
    exact hb
  refine sweepFrom_induct (motive := fun before cs ds =>
    sweepFrom rule before (cs ++ fence) [] = ds ++ sweep rule fence) ?nil ?keep ?fire none cs
  case nil => exact fun before => h.sweepFrom_gapped hgapped before
  case keep =>
    intro before c cs ds hrule ih
    rw [List.cons_append, sweepFrom_cons, h.ahead hfence, hrule]
    dsimp only
    rw [ih]
    rfl
  case fire =>
    intro before c cs s ds hrule ih
    have hwithin := h.within hrule
    have hlast : lastChar c (cs ++ fence) s.more = lastChar c cs s.more := by
      cases hmore : s.more with
      | zero => rfl
      | succ n =>
        rw [hmore] at hwithin
        rw [lastChar, lastChar, List.getElem?_append_left hwithin]
    rw [List.cons_append, sweepFrom_cons, h.ahead hfence, hrule]
    dsimp only
    rw [hlast, List.drop_append_of_le_length hwithin, ih, List.append_assoc]

end Fenced

/-! ### Words -/

/-- No blank is a form of a letter of the word. -/
def Blankless (same : Char → Char → Bool) (w : String) : Prop :=
  ∀ p ∈ w.toList, ∀ b, isBlank b = true → same p b = false

theorem ne_nil_of_mismatch {same : Char → Char → Bool} {w : String} {start : List Char}
    (h : mismatch same w start = true) : w.toList ≠ [] := by
  intro hnil
  rw [mismatch, hnil] at h
  cases h

theorem afterPhrase?_nil {same : Char → Char → Bool} {w : String} (ws : List String)
    (hw : w.toList ≠ []) : afterPhrase? same (w :: ws) [] = none := by
  obtain ⟨p, ps, hcons⟩ := List.exists_cons_of_ne_nil hw
  have hword : afterWord? same w.toList [] = none := by
    rw [hcons, afterWord?]
  cases ws with
  | nil => rw [afterPhrase?, hword]; rfl
  | cons w' ws => rw [afterPhrase?.eq_3 _ _ _ _ (List.cons_ne_nil w' ws), hword]

section
variable {P : Char → Prop} {same : Char → Char → Bool} {fence : List Char} (hfence : Fence P fence)
include hfence

theorem afterWord?_append : ∀ {w cs : List Char},
    (∀ p ∈ w, ∀ b, isBlank b = true → same p b = false) →
      afterWord? same w (cs ++ fence) = (afterWord? same w cs).map (· ++ fence)
  | [], cs, _ => rfl
  | p :: w, [], hw => by
    obtain ⟨b, rest, rfl, hb⟩ := hfence.exists_cons
    have hp : same p b = false := hw p (List.mem_cons_self ..) b hb
    simp [afterWord?, hp]
  | p :: w, c :: cs, hw => by
    rw [List.cons_append, afterWord?, afterWord?]
    split
    · exact afterWord?_append fun q hq => hw q (List.mem_cons_of_mem _ hq)
    · rfl

/-- The words of a phrase cannot be on both sides of a fence. -/
theorem afterPhrase?_append : ∀ {ws : List String} {cs : List Char}, (∀ w ∈ ws, Blankless same w) →
    (∀ w ∈ ws.tail, ∀ m, P m → mismatch same w [m] = true) →
      afterPhrase? same ws (cs ++ fence) =
        (afterPhrase? same ws cs).map fun (n, rest) => (n, rest ++ fence)
  | [], cs, _, _ => rfl
  | [w], cs, hws, _ => by
    rw [afterPhrase?, afterPhrase?, afterWord?_append hfence (hws w (List.mem_cons_self ..))]
    cases afterWord? same w.toList cs <;> rfl
  | w :: w' :: ws, cs, hws, htail => by
    obtain ⟨hw, hws⟩ := List.forall_mem_cons.1 hws
    rw [afterPhrase?.eq_3 _ _ _ _ (List.cons_ne_nil w' ws),
      afterPhrase?.eq_3 _ _ _ _ (List.cons_ne_nil w' ws), afterWord?_append hfence hw]
    cases afterWord? same w.toList cs with
    | none => rfl
    | some behind =>
      dsimp only [Option.map_some]
      rcases hfence.blanks_append behind with ⟨hnil, m, rest, hm, hdrop⟩ | ⟨-, htake, hdrop⟩
      · -- the next word would have to start at the fence's character
        have hmismatch := htail w' (List.mem_cons_self ..) m hm
        have hfirst : (w' :: ws).head?.any (mismatch same · [m]) = true := hmismatch
        have hnone : afterPhrase? same (w' :: ws) (m :: rest) = none := afterPhrase?_eq_none hfirst rest
        have hend : afterPhrase? same (w' :: ws) [] = none :=
          afterPhrase?_nil ws (ne_nil_of_mismatch hmismatch)
        rw [hnil, hdrop, hnone, hend]
        split <;> split <;> rfl
      · have htail' : ∀ v ∈ (w' :: ws).tail, ∀ m, P m → mismatch same v [m] = true :=
          fun v hv => htail v (List.mem_cons_of_mem _ hv)
        rw [htake, hdrop, afterPhrase?_append hws htail']
        split
        · rfl
        · cases afterPhrase? same (w' :: ws) (behind.dropWhile isBlank) <;> rfl

theorem phraseLength?_append {ws : List String} {cs : List Char} (hws : ∀ w ∈ ws, Blankless same w)
    (htail : ∀ w ∈ ws.tail, ∀ m, P m → mismatch same w [m] = true) (before : Option Char) :
    phraseLength? same ws before (cs ++ fence) = phraseLength? same ws before cs := by
  unfold phraseLength?
  rw [afterPhrase?_append hfence hws htail]
  cases afterPhrase? same ws cs with
  | none => rfl
  | some found =>
    dsimp only [Option.map_some]
    rw [hfence.closesWord_append]

end

section
variable {same : Char → Char → Bool} {ws : List String} {before : Option Char} {c : Char}
  {cs : List Char}

theorem phraseLength?_opens (hbefore : opensWord before = true) :
    phraseLength? same ws before cs = phraseLength? same ws none cs := by
  rw [phraseLength?, phraseLength?, if_pos hbefore, if_pos (show opensWord none = true from rfl)]

theorem phraseLength?_le {n : Nat} (h : phraseLength? same ws before (c :: cs) = some n) :
    n - 1 ≤ cs.length := by
  obtain ⟨-, phrase, rest, -, hcs, rfl, -⟩ := phraseLength?_spec h
  have hlength := congrArg List.length hcs
  simp only [List.length_cons, List.length_append] at hlength
  omega

theorem phraseLength?_blank {w : String} (hw : Blankless same w) (hne : w.toList ≠ [])
    (hc : isBlank c = true) : phraseLength? same (w :: ws) before (c :: cs) = none := by
  obtain ⟨p, ps, hcons⟩ := List.exists_cons_of_ne_nil hne
  have hp : same p c = false := hw p (hcons ▸ List.mem_cons_self ..) c hc
  have hfirst : (w :: ws).head?.any (mismatch same · [c]) = true := by
    simp [mismatch, hcons, hp]
  have hnone : afterPhrase? same (w :: ws) (c :: cs) = none := afterPhrase?_eq_none hfirst cs
  refine phraseLength?_eq_none ?_ before
  rw [hnone]
  rfl

end

theorem blankless_foldsTo {w : String} (hw : Lettered w) : Blankless foldsTo w := by
  intro p hp b hb
  refine Bool.eq_false_iff.2 fun hfolds => ?_
  cases (isBlank_of_foldsTo (hw.mem hp) hfolds).symm.trans hb

theorem blankless_isEitherCase {w : String} (hw : Lettered w) : Blankless isEitherCase w := by
  intro p hp b hb
  refine Bool.eq_false_iff.2 fun hcase => ?_
  cases (blankless_foldsTo hw p hp b hb).symm.trans (foldsTo_of_isEitherCase hcase)

/-- No word behind the first one of a phrase starts with the character. -/
def BreaksPhrases (m : Char) : Prop :=
  ∀ e ∈ operatorWords, ∀ w ∈ e.1.tail, mismatch foldsTo w [m] = true

theorem fenced_numberWord : Fenced (fun _ => True) numberWord where
  within before c cs s h := by
    obtain ⟨e, -, hs⟩ := List.exists_of_findSome?_eq_some h
    obtain ⟨k, hk, rfl⟩ := Option.map_eq_some_iff.1 hs
    exact phraseLength?_le hk
  blank b hb before cs := by
    refine List.findSome?_eq_none_iff.2 ?_
    rintro ⟨w, n⟩ he
    obtain ⟨hletters, hlong⟩ := numberWords_facts _ he
    have hne : w.toList ≠ [] := List.length_pos_iff.1 (Nat.zero_lt_of_lt hlong)
    dsimp only
    rw [phraseLength?_blank (blankless_isEitherCase hletters) hne hb]
    rfl
  opens before hbefore c cs := by
    unfold numberWord
    simp only [phraseLength?_opens hbefore]
  ahead fence hfence before c cs := by
    rw [numberWord, numberWord, ← List.head?_filterMap, ← List.head?_filterMap]
    refine congrArg List.head? (List.filterMap_congr ?_)
    rintro ⟨w, n⟩ he
    have hw : ∀ v ∈ [w], Blankless isEitherCase v :=
      List.forall_mem_singleton.2 (blankless_isEitherCase (numberWords_facts _ he).1)
    dsimp only
    rw [← List.cons_append, phraseLength?_append hfence hw fun _ hv => absurd hv List.not_mem_nil]

theorem fenced_operatorWord {ws : List String} {sign : Char} (he : (ws, sign) ∈ operatorWords) :
    Fenced BreaksPhrases (operatorWord ws sign) where
  within before c cs s h := by
    obtain ⟨k, hk, rfl⟩ := Option.map_eq_some_iff.1 h
    exact phraseLength?_le hk
  blank b hb before cs := by
    obtain ⟨-, hlong, hletters⟩ := operatorWords_facts _ he
    cases ws with
    | nil => cases hlong
    | cons w ws =>
      have hne : w.toList ≠ [] := List.length_pos_iff.1 (Nat.zero_lt_of_lt (of_decide_eq_true hlong))
      rw [operatorWord, phraseLength?_blank (blankless_foldsTo (hletters w (List.mem_cons_self ..))) hne hb]
      rfl
  opens before hbefore c cs := by
    rw [operatorWord, operatorWord, phraseLength?_opens hbefore]
  ahead fence hfence before c cs := by
    obtain ⟨-, -, hletters⟩ := operatorWords_facts _ he
    have hws : ∀ w ∈ ws, Blankless foldsTo w := fun w hw => blankless_foldsTo (hletters w hw)
    rw [operatorWord, operatorWord, ← List.cons_append,
      phraseLength?_append hfence hws fun w hw m hm => hm _ he w hw]

/-! ### Degrees -/

/-- The signs that operator words stand for. -/
def operatorSigns : List Char := ['*', '/', '+', '-', '%']

theorem blank_ne {b x : Char} (hb : isBlank b = true) (hx : isBlank x = false) : b ≠ x := by
  rintro rfl
  cases hb.symm.trans hx

theorem fenced_degreeScale {scale : Char} (hscale : scale ∉ operatorSigns) :
    Fenced (· ∈ operatorSigns) (degreeScale scale) where
  within before c cs s h := by
    unfold degreeScale at h
    split at h
    · split at h
      · next d rest hdrop =>
        split at h
        · cases h
          have hlength := congrArg List.length (List.takeWhile_append_dropWhile (p := isBlank) (l := cs))
          rw [hdrop, List.length_append, List.length_cons] at hlength
          dsimp only
          omega
        · cases h
      · cases h
    · cases h
  blank b hb before cs := if_neg (blank_ne hb rfl)
  opens before hbefore c cs := rfl
  ahead fence hfence before c cs := by
    unfold degreeScale
    rcases hfence.blanks_append cs with ⟨hnil, m, rest, hm, hdrop⟩ | ⟨hne, htake, hdrop⟩
    · have hother : m ≠ scale := fun heq => hscale (heq ▸ hm)
      simp [hnil, hdrop, hother]
    · obtain ⟨d, rest, hcons⟩ := List.exists_cons_of_ne_nil hne
      rw [hdrop, htake, hcons, List.cons_append]
      dsimp only
      rw [hfence.closesWord_append]

theorem fenced_degreeAlone : Fenced (· ∈ operatorSigns) degreeAlone where
  within before c cs s h := by
    unfold degreeAlone at h
    split at h
    · cases h
      exact Nat.zero_le _
    · cases h
  blank b hb before cs := if_neg (blank_ne hb rfl)
  opens before hbefore c cs := rfl
  ahead fence hfence before c cs := rfl

/-! ### Numbers -/

theorem isDecimal_blank {b : Char} (hb : isBlank b = true) : isDecimal b = false :=
  (blank_facts b (mem_blankChars hb)).2.1

theorem isNumberChar_blank {b : Char} (hb : isBlank b = true) : isNumberChar b = false :=
  (blank_facts b (mem_blankChars hb)).2.2.1

section
variable {P : Char → Prop} {fence : List Char} (hfence : Fence P fence)
include hfence

theorem underscoreGroups_append (cs : List Char) :
    underscoreGroups (cs ++ fence) = underscoreGroups cs := by
  have hrun := hfence.run_append (p := isDecimal) fun _ => isDecimal_blank
  fun_induction underscoreGroups cs with
  | case1 rest hnone =>
    rw [List.cons_append, underscoreGroups, (hrun rest).1, if_pos hnone]
  | case2 rest hsome ih =>
    rw [List.cons_append, underscoreGroups, (hrun rest).1, (hrun rest).2, if_neg hsome, ih]
  | case3 cs hother =>
    unfold underscoreGroups
    split
    · next rest heq =>
      cases cs with
      | nil =>
        obtain ⟨b, rest', rfl, hb⟩ := hfence.exists_cons
        obtain ⟨rfl, -⟩ := List.cons.inj heq
        cases hb
      | cons c cs =>
        obtain ⟨rfl, -⟩ := List.cons.inj heq
        exact absurd rfl (hother cs)
    · rfl

end

theorem fenced_underscored : Fenced (· ∈ operatorSigns) underscored where
  within before c cs s h := by
    unfold underscored at h
    split at h
    · dsimp only at h
      split at h
      · cases h
      · cases h
        obtain ⟨-, rest, hrest⟩ := underscoreGroups_spec (cs.dropWhile isDecimal)
        have hgroups := congrArg List.length hrest
        have hrun := congrArg List.length (List.takeWhile_append_dropWhile (p := isDecimal) (l := cs))
        rw [List.length_append, length_flatMap_cons] at hgroups
        rw [List.length_append] at hrun
        dsimp only
        omega
    · cases h
  blank b hb before cs := by
    rw [underscored, isDecimal_blank hb, Bool.and_false]
    rfl
  opens before hbefore c cs := by
    rw [underscored, underscored, hbefore, show opensWord none = true from rfl]
  ahead fence hfence before c cs := by
    obtain ⟨htake, hdrop⟩ := hfence.run_append (fun _ => isDecimal_blank) cs
    rw [underscored, underscored, htake, hdrop, underscoreGroups_append hfence]

theorem sign_facts : ∀ m ∈ operatorSigns, isBlank m = false ∧ isDecimal m = false ∧
    isWordChar m = false ∧ isNumberChar m = false ∧ m ≠ degreeSign ∧ Currency.ofSymbol? m = none ∧
      letters.all (fun p => !foldsTo p m) = true :=
  List.all_iff_forall_prop.1 (by decide +kernel)

section
variable {fence : List Char} (hfence : Fence (· ∈ operatorSigns) fence)
include hfence

theorem spacedEnd?_append (cs : List Char) : spacedEnd? (cs ++ fence) = spacedEnd? cs := by
  cases cs with
  | nil =>
    have hcloses : closesWord fence = true := (hfence.closesWord_append []).trans rfl
    obtain ⟨b, rest, rfl, hb⟩ := hfence.exists_cons
    rw [List.nil_append, spacedEnd?.eq_2 _ fun rest heq => blank_ne hb rfl (List.cons.inj heq).1,
      if_pos hcloses]
    rfl
  | cons c cs =>
    by_cases hc : c = ','
    · obtain ⟨htake, hdrop⟩ := hfence.run_append (fun _ => isDecimal_blank) cs
      rw [hc, List.cons_append, spacedEnd?, spacedEnd?, htake, hdrop, hfence.closesWord_append]
    · rw [List.cons_append, spacedEnd?.eq_2 _ fun rest heq => hc (List.cons.inj heq).1,
        spacedEnd?.eq_2 _ fun rest heq => hc (List.cons.inj heq).1]
      rfl

omit hfence in
theorem spacedGroups?_eq_none_of {cs : List Char} (h : ∀ s x y z rest, cs = s :: x :: y :: z :: rest →
    isDecimal x = false ∨ isDecimal y = false ∨ isDecimal z = false) : spacedGroups? cs = none := by
  unfold spacedGroups?
  split
  · next s x y z rest =>
    refine if_neg fun hif => ?_
    simp only [Bool.and_eq_true] at hif
    rcases h s x y z rest rfl with hx | hx | hx <;> simp [hx] at hif
  · rfl

theorem isDecimal_fence {s x : Char} {rest : List Char} (heq : fence = s :: x :: rest) :
    isDecimal s = false ∧ isDecimal x = false := by
  obtain @⟨gap, m, rest', hne, hgap, -, hm⟩ := hfence
  match gap, hne with
  | [b], _ =>
    cases heq
    exact ⟨isDecimal_blank (hgap _ (List.mem_singleton_self _)), (sign_facts _ hm).2.1⟩
  | b :: b' :: gap, _ =>
    cases heq
    exact ⟨isDecimal_blank (hgap _ (by simp)), isDecimal_blank (hgap _ (by simp))⟩

/-- A group of digits is on one side of a fence. -/
theorem spacedGroups?_append : ∀ cs : List Char, spacedGroups? (cs ++ fence) = spacedGroups? cs
  | s :: x :: y :: z :: rest => by
    rw [List.cons_append, List.cons_append, List.cons_append, List.cons_append, spacedGroups?,
      spacedGroups?, spacedGroups?_append rest, spacedEnd?_append hfence]
  | [] => spacedGroups?_eq_none_of fun _ _ _ _ _ heq => .inl (isDecimal_fence hfence heq).2
  | [_] => spacedGroups?_eq_none_of fun _ _ _ _ _ heq =>
    .inl (isDecimal_fence hfence (List.cons.inj heq).2).1
  | [_, _] => spacedGroups?_eq_none_of fun _ _ _ _ _ heq =>
    .inr (.inl (isDecimal_fence hfence (List.cons.inj (List.cons.inj heq).2).2).1)
  | [_, _, _] => spacedGroups?_eq_none_of fun s x y z rest heq => by
    obtain ⟨b, behind, hcons, hb⟩ := hfence.exists_cons
    rw [hcons] at heq
    simp only [List.cons_append, List.nil_append, List.cons.injEq] at heq
    exact .inr (.inr (heq.2.2.2.1 ▸ isDecimal_blank hb))

end

theorem spacedEnd?_le {cs : List Char} {n : Nat} (h : spacedEnd? cs = some n) : n ≤ cs.length := by
  unfold spacedEnd? at h
  split at h
  · next rest =>
    have hrun := (List.takeWhile_prefix isDecimal (l := rest)).length_le
    dsimp only at h
    split at h <;> cases h
    · exact Nat.succ_le_succ hrun
    · exact Nat.zero_le _
  · split at h <;> cases h
    exact Nat.zero_le _

theorem spacedGroups?_le : ∀ {cs : List Char} {n : Nat}, spacedGroups? cs = some n → n ≤ cs.length
  | s :: x :: y :: z :: rest, n, h => by
    rw [spacedGroups?] at h
    split at h
    · split at h
      · next k hk =>
        cases h
        exact Nat.add_le_add_right (spacedGroups?_le hk) 4
      · obtain ⟨k, hk, rfl⟩ := Option.map_eq_some_iff.1 h
        exact Nat.add_le_add_right (spacedEnd?_le hk) 4
    · cases h
  | [], _, h | [_], _, h | [_, _], _, h | [_, _, _], _, h => by cases h

/-- The digits and the groups behind them. -/
theorem spaced_length_le {cs : List Char} {n : Nat}
    (h : spacedGroups? (cs.dropWhile isDecimal) = some n) :
    (cs.takeWhile isDecimal).length + n ≤ cs.length := by
  have hgroups := spacedGroups?_le h
  have hrun := congrArg List.length (List.takeWhile_append_dropWhile (p := isDecimal) (l := cs))
  rw [List.length_append] at hrun
  omega

theorem fenced_spaced : Fenced (· ∈ operatorSigns) spaced where
  within before c cs s h := by
    unfold spaced at h
    split at h
    · dsimp only at h
      split at h
      · obtain ⟨n, hn, rfl⟩ := Option.map_eq_some_iff.1 h
        exact spaced_length_le hn
      · cases h
    · cases h
  blank b hb before cs := by
    rw [spaced, isDecimal_blank hb, Bool.and_false]
    rfl
  opens before hbefore c cs := by
    rw [spaced, spaced, hbefore, show opensWord none = true from rfl]
  ahead fence hfence before c cs := by
    obtain ⟨htake, hdrop⟩ := hfence.run_append (fun _ => isDecimal_blank) cs
    rw [spaced, spaced, htake, hdrop, spacedGroups?_append hfence]
    cases hgroups : spacedGroups? (cs.dropWhile isDecimal) with
    | none => rfl
    | some n =>
      dsimp only [Option.map_some]
      rw [List.take_append_of_le_length (spaced_length_le hgroups)]

theorem fenced_punctuated (l : Locale) : Fenced (· ∈ operatorSigns) (punctuated l) where
  within before c cs s h := by
    unfold punctuated at h
    split at h
    · dsimp only at h
      split at h
      · cases h
      · cases h
        have hkept := (List.dropWhile_suffix (fun x => !isDecimal x)
          (l := (cs.takeWhile isNumberChar).reverse)).length_le
        have hrun := (List.takeWhile_prefix isNumberChar (l := cs)).length_le
        rw [List.length_reverse] at hkept
        dsimp only
        rw [List.length_reverse]
        exact hkept.trans hrun
    · cases h
  blank b hb before cs := by
    rw [punctuated, isDecimal_blank hb]
    rfl
  opens before hbefore c cs := rfl
  ahead fence hfence before c cs := by
    rw [punctuated, punctuated, (hfence.run_append (fun _ => isNumberChar_blank) cs).1]

/-! ### Symbols -/

theorem ofSymbol?_blank {b : Char} (hb : isBlank b = true) : Currency.ofSymbol? b = none :=
  (blank_facts b (mem_blankChars hb)).2.2.2.2

/-- The scale words have letters, and no operator starts like one of them. -/
theorem amountScales_facts : ∀ w ∈ amountScales, w.toList.all (!isBlank ·) = true ∧
    operatorSigns.all (fun m => w.toList.head?.any (· != m)) = true :=
  List.all_iff_forall_prop.1 (by decide +kernel)

section
variable {fence : List Char} (hfence : Fence (· ∈ operatorSigns) fence)
include hfence

theorem fractionAt_append (cs : List Char) : fractionAt (cs ++ fence) = fractionAt cs := by
  cases cs with
  | nil =>
    obtain ⟨b, rest, rfl, hb⟩ := hfence.exists_cons
    exact fractionAt.eq_2 _ fun rest heq => blank_ne hb rfl (List.cons.inj heq).1
  | cons c cs =>
    by_cases hc : c = '.'
    · rw [hc, List.cons_append, fractionAt, fractionAt,
        (hfence.run_append (fun _ => isDecimal_blank) cs).1]
    · rw [List.cons_append, fractionAt.eq_2 _ fun rest heq => hc (List.cons.inj heq).1,
        fractionAt.eq_2 _ fun rest heq => hc (List.cons.inj heq).1]

theorem amountAt_append (cs : List Char) : amountAt (cs ++ fence) = amountAt cs := by
  obtain ⟨htake, hdrop⟩ := hfence.run_append (fun _ => isDecimal_blank) cs
  rw [amountAt, amountAt, htake, hdrop, fractionAt_append hfence]

theorem isPrefixOf_append : ∀ {w cs : List Char}, (∀ p ∈ w, isBlank p = false) →
    w.isPrefixOf (cs ++ fence) = w.isPrefixOf cs
  | [], _, _ => by simp
  | p :: w, [], hw => by
    obtain ⟨b, rest, rfl, hb⟩ := hfence.exists_cons
    have hp : p ≠ b := (blank_ne hb (hw p (List.mem_cons_self ..))).symm
    simp [List.isPrefixOf, hp]
  | p :: w, c :: cs, hw => by
    have ih : w.isPrefixOf (cs ++ fence) = w.isPrefixOf cs :=
      isPrefixOf_append fun q hq => hw q (List.mem_cons_of_mem p hq)
    simp [List.isPrefixOf, ih]

/-- Where the amount ends at the fence, the operator is no scale word. -/
theorem scaleAt_append (cs : List Char) : scaleAt (cs ++ fence) = scaleAt cs := by
  unfold scaleAt
  dsimp only
  rcases hfence.blanks_append cs with ⟨hnil, m, rest, hm, hdrop⟩ | ⟨-, htake, hdrop⟩
  · have hnone : ∀ w ∈ amountScales, w.toList.isPrefixOf (m :: rest) = false ∧
        w.toList.isPrefixOf [] = false := by
      intro w hw
      have hfirst := List.all_eq_true.1 (amountScales_facts w hw).2 m hm
      cases hcons : w.toList with
      | nil =>
        rw [hcons] at hfirst
        cases hfirst
      | cons p ps =>
        have hp : p ≠ m := by simpa [hcons] using hfirst
        simp [List.isPrefixOf, hp]
    have hfind : ∀ ds : List Char, (∀ w ∈ amountScales, w.toList.isPrefixOf ds = false) →
        amountScales.find? (fun w => w.toList.isPrefixOf ds && closesWord (ds.drop w.length)) =
          none := by
      intro ds hds
      refine List.find?_eq_none.2 fun w hw => ?_
      simp [hds w hw]
    rw [hnil, hdrop, hfind _ fun w hw => (hnone w hw).1, hfind _ fun w hw => (hnone w hw).2]
  · rw [htake, hdrop]
    have hsame : ∀ w ∈ amountScales,
        (w.toList.isPrefixOf (cs.dropWhile isBlank ++ fence) &&
          closesWord ((cs.dropWhile isBlank ++ fence).drop w.length)) =
        (w.toList.isPrefixOf (cs.dropWhile isBlank) &&
          closesWord ((cs.dropWhile isBlank).drop w.length)) := by
      intro w hw
      have hblank := List.all_eq_true.1 (amountScales_facts w hw).1
      rw [isPrefixOf_append hfence fun p hp => by simpa using hblank p hp]
      cases hprefix : w.toList.isPrefixOf (cs.dropWhile isBlank) with
      | false => rfl
      | true =>
        have hle := (List.isPrefixOf_iff_prefix.1 hprefix).length_le
        rw [String.length_toList] at hle
        rw [List.drop_append_of_le_length hle, hfence.closesWord_append]
    rw [List.find?_congr hsame]

end

/-- The amount with its scale word. -/
theorem scaled_length_le (cs : List Char) :
    (amountAt cs).length + (scaleAt (cs.drop (amountAt cs).length)).length ≤ cs.length := by
  have hamount := (isPrefix_amountAt cs).length_le
  have hscale := (isPrefix_scaleAt (cs.drop (amountAt cs).length)).length_le
  rw [List.length_drop] at hscale
  omega

theorem fenced_symbolBefore : Fenced (· ∈ operatorSigns) symbolBefore where
  within before c cs s h := by
    unfold symbolBefore at h
    split at h
    · cases h
    · dsimp only at h
      split at h
      · cases h
      · cases h
        have hscaled := scaled_length_le (cs.dropWhile isBlank)
        have hblanks := congrArg List.length (List.takeWhile_append_dropWhile (p := isBlank) (l := cs))
        rw [List.length_append] at hblanks
        dsimp only
        rw [List.length_append]
        omega
  blank b hb before cs := by
    rw [symbolBefore, ofSymbol?_blank hb]
  opens before hbefore c cs := rfl
  ahead fence hfence before c cs := by
    unfold symbolBefore
    cases Currency.ofSymbol? c with
    | none => rfl
    | some code =>
      dsimp only
      rcases hfence.blanks_append cs with ⟨hnil, m, rest, hm, hdrop⟩ | ⟨-, htake, hdrop⟩
      · have hnone : amountAt (m :: rest) = [] := by
          rw [amountAt, List.takeWhile_cons_of_neg (by simp [(sign_facts m hm).2.1])]
          rfl
        rw [hnil, hdrop, if_pos hnone]
        rfl
      · have hle := (isPrefix_amountAt (cs.dropWhile isBlank)).length_le
        rw [htake, hdrop, amountAt_append hfence, List.drop_append_of_le_length hle,
          scaleAt_append hfence]

theorem fenced_symbolAfter : Fenced (· ∈ operatorSigns) symbolAfter where
  within before c cs s h := by
    have hrun := (List.takeWhile_prefix isDecimal (l := cs)).length_le
    unfold symbolAfter at h
    split at h
    · next hc =>
      dsimp only at h
      split at h
      · next symbol rest hsymbol =>
        split at h
        · cases h
          have hamount := (isPrefix_amountAt (c :: cs)).length_le
          have hne := List.length_pos_iff.2 (amountAt_ne_nil hc cs)
          have hblanks := congrArg List.length (List.takeWhile_append_dropWhile (p := isBlank)
            (l := cs.drop ((amountAt (c :: cs)).length - 1)))
          rw [hsymbol, List.length_append, List.length_drop, List.length_cons] at hblanks
          rw [List.length_cons] at hamount
          dsimp only
          omega
        · cases h
          exact hrun
      · cases h
        exact hrun
    · cases h
  blank b hb before cs := by
    rw [symbolAfter, isDecimal_blank hb]
    rfl
  opens before hbefore c cs := rfl
  ahead fence hfence before c cs := by
    have hamount : amountAt (c :: (cs ++ fence)) = amountAt (c :: cs) := amountAt_append hfence (c :: cs)
    have hle : (amountAt (c :: cs)).length - 1 ≤ cs.length := by
      have hprefix := (isPrefix_amountAt (c :: cs)).length_le
      rw [List.length_cons] at hprefix
      omega
    unfold symbolAfter
    rw [hamount, (hfence.run_append (fun _ => isDecimal_blank) cs).1]
    split
    · dsimp only
      rw [List.drop_append_of_le_length hle]
      -- behind the amount the rule sees the operator, which is no symbol, or the same as before
      rcases hfence.blanks_append (cs.drop ((amountAt (c :: cs)).length - 1)) with
        ⟨hnil, m, rest, hm, hdrop⟩ | ⟨hne, htake, hdrop⟩
      · rw [hnil, hdrop]
        dsimp only
        rw [(sign_facts m hm).2.2.2.2.2.1]
      · obtain ⟨d, rest, hcons⟩ := List.exists_cons_of_ne_nil hne
        rw [hdrop, htake, hcons]
        rfl
    · rfl

theorem fenced_symbolAlone : Fenced (· ∈ operatorSigns) symbolAlone where
  within before c cs s h := by
    obtain ⟨code, -, rfl⟩ := Option.map_eq_some_iff.1 h
    exact Nat.zero_le _
  blank b hb before cs := by
    rw [symbolAlone, ofSymbol?_blank hb]
    rfl
  opens before hbefore c cs := rfl
  ahead fence hfence before c cs := rfl

end Reckoner.Spelling

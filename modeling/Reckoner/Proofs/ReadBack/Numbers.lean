import Reckoner.Proofs.ReadBack.Grouping

/-!
# Finding the number in a text

A sweep copies what stands before the number, fires once, and then finds nothing more to do
(`sweep_append`, `sweepFrom_once`). The rule for spaces takes a number in groups, fraction included,
and leaves out its blanks (`sweep_spaced_marked`); the rule for separators takes digits, points and
commas (`sweep_punctuated`). Together they read a shown number as the plain one, in a row or in groups
(`normalizeNumbers_mantissa`, `normalizeNumbers_grouped`).
-/

namespace Reckoner.Spelling

open Decimal (Digits Written fractionText mem_fractionText)
open Text (isDecimal isBlank)

/-! ### Sweeping to one place -/

section
variable {rule : Rule}

theorem sweepFrom_append : ∀ {pre rest : List Char},
    (∀ c ∈ pre, ∀ before cs, rule before c cs = none) →
      ∀ before, ∃ before', (before' = before ∨ ∃ c ∈ pre, before' = some c) ∧
        sweepFrom rule before (pre ++ rest) [] = pre ++ sweepFrom rule before' rest []
  | [], _, _, before => ⟨before, .inl rfl, rfl⟩
  | c :: pre, rest, h, before => by
    have htail : ∀ x ∈ pre, ∀ before cs, rule before x cs = none :=
      fun x hx => h x (List.mem_cons_of_mem _ hx)
    obtain ⟨before', hbefore, hsweep⟩ := sweepFrom_append htail (some c)
    refine ⟨before', .inr ?_, ?_⟩
    · rcases hbefore with rfl | ⟨x, hx, rfl⟩
      · exact ⟨c, List.mem_cons_self .., rfl⟩
      · exact ⟨x, List.mem_cons_of_mem _ hx, rfl⟩
    · rw [List.cons_append, sweepFrom_cons, h c (List.mem_cons_self ..), hsweep]
      rfl

/-- Where the rule never fires the sweep copies the text. -/
theorem sweep_append {pre cs ds : List Char}
    (hquiet : ∀ c ∈ pre, ∀ before cs, rule before c cs = none)
    (hrest : ∀ before, (before = none ∨ ∃ c ∈ pre, before = some c) →
      sweepFrom rule before cs [] = ds) :
    sweep rule (pre ++ cs) = pre ++ ds := by
  obtain ⟨before, hbefore, hsweep⟩ := sweepFrom_append hquiet none
  rw [sweep, hsweep, hrest before hbefore]

/-- A rule that fires in front of a text it leaves alone. -/
theorem sweepFrom_once {before : Option Char} {c : Char} {taken replacement rest : List Char}
    (hfires : rule before c (taken ++ rest) = some ⟨taken.length, replacement⟩)
    (hrest : Idle rule rest) :
    sweepFrom rule before (c :: (taken ++ rest)) [] = replacement ++ rest := by
  rw [sweepFrom_cons, hfires]
  dsimp only
  rw [List.drop_left, hrest.sweepFrom_eq _ List.suffix_rfl]

end

/-! ### Spaces that join no digits -/

/-- No space of a number stands before a digit. -/
def Loose (cs : List Char) : Prop :=
  ∀ a b rest, a :: b :: rest <:+ cs → isGroupSpace a = true → isDecimal b = false

namespace Loose
variable {cs ds : List Char}

theorem append (hcs : ∀ c ∈ cs, isGroupSpace c = false) (hds : Loose ds) : Loose (cs ++ ds) := by
  induction cs with
  | nil => exact hds
  | cons c cs ih =>
    have htail : Loose (cs ++ ds) := ih fun x hx => hcs x (List.mem_cons_of_mem _ hx)
    intro a b rest hsuffix ha
    rcases List.suffix_cons_iff.1 hsuffix with heq | hsuffix
    · obtain ⟨rfl, -⟩ := List.cons.inj heq
      exact nomatch ha.symm.trans (hcs a (List.mem_cons_self ..))
    · exact htail a b rest hsuffix ha

theorem idle_spaced (h : Loose cs) : Idle spaced cs :=
  Spelling.idle_spaced fun hsuffix _ hb => h _ _ _ ((List.suffix_cons ..).trans hsuffix) hb

theorem spacedGroups?_eq_none (h : Loose cs) : spacedGroups? cs = none := by
  unfold spacedGroups?
  split
  · next s x y z rest =>
    refine if_neg fun hif => ?_
    simp only [Bool.and_eq_true] at hif
    exact nomatch (h s x _ List.suffix_rfl hif.1.1.1).symm.trans hif.1.1.2
  · rfl

end Loose

theorem not_isGroupSpace_of_isDigit {c : Char} (h : c.isDigit = true) : isGroupSpace c = false := by
  cases hc : isGroupSpace c with
  | false => rfl
  | true => exact nomatch (isBlank_of_isGroupSpace hc).symm.trans (not_isBlank_of_isDigit h)

/-! ### What stands around a number -/

/-- What may stand before a number: nothing that could belong to it or to a word. -/
def Before (pre : List Char) : Prop :=
  ∀ c ∈ pre, Text.isWordChar c = false ∧ isDecimal c = false ∧ isGroupSpace c = false

/-- What may stand behind a number. -/
structure Behind (cs : List Char) : Prop where
  point : '.' ∉ cs
  comma : ',' ∉ cs
  digit : cs.head?.any isDecimal = false
  loose : Loose cs

theorem behind_nil : Behind [] :=
  ⟨List.not_mem_nil, List.not_mem_nil, rfl, fun _ _ _ h => nomatch List.suffix_nil.1 h⟩

section
variable {pre head fraction behind : List Char} {gs : List Triple}

theorem Behind.numberChar (h : Behind behind) :
    ∀ c rest, behind = c :: rest → isNumberChar c = false := by
  rintro c rest rfl
  have hpoint : c ≠ '.' := fun hc => h.point (hc ▸ List.mem_cons_self ..)
  have hcomma : c ≠ ',' := fun hc => h.comma (hc ▸ List.mem_cons_self ..)
  exact (isNumberChar_eq hpoint hcomma).trans h.digit

theorem loose_fractionText {mark : Char} (hfraction : Digits fraction)
    (hmark : isGroupSpace mark = false) (h : Loose behind) :
    Loose (fractionText mark fraction ++ behind) := by
  refine Loose.append (fun c hc => ?_) h
  rcases mem_fractionText hfraction hc with hdigit | rfl
  · exact not_isGroupSpace_of_isDigit hdigit
  · exact hmark

/-! ### Groups behind spaces -/

theorem spacedEnd?_fractionText (hfraction : Digits fraction) (h : Behind behind)
    (hcloses : closesWord behind = true) :
    spacedEnd? (fractionText ',' fraction ++ behind) =
      some (fractionText ',' fraction).length := by
  unfold fractionText
  split
  · rw [List.nil_append]
    unfold spacedEnd?
    split
    · exact absurd (List.mem_cons_self ..) h.comma
    · exact if_pos hcloses
  · next hne =>
    obtain ⟨htake, hdrop⟩ := hfraction.takeWhile_dropWhile_append h.digit
    rw [List.cons_append, spacedEnd?, htake, hdrop, if_pos ⟨hne, hcloses⟩]
    rfl

theorem spacedGroups?_marked {cs : List Char} {n : Nat} (hgs : Digits (joined gs)) (hne : gs ≠ [])
    (hloose : Loose cs) (hend : spacedEnd? cs = some n) :
    spacedGroups? (marked ' ' gs ++ cs) = some ((marked ' ' gs).length + n) := by
  induction gs with
  | nil => exact absurd rfl hne
  | cons g gs ih =>
    obtain ⟨x, y, z⟩ := g
    have hdecimal := hgs.isDecimal
    have hgroup : (isGroupSpace ' ' && isDecimal x && isDecimal y && isDecimal z) = true := by
      rw [hdecimal x (by simp), hdecimal y (by simp), hdecimal z (by simp)]
      rfl
    have hlength : (marked ' ' ((x, y, z) :: gs)).length + n = (marked ' ' gs).length + n + 4 := by
      rw [marked_cons, List.length_cons, List.length_cons, List.length_cons, List.length_cons]
      omega
    rw [hlength, marked_cons, List.cons_append, List.cons_append, List.cons_append,
      List.cons_append, spacedGroups?, if_pos hgroup]
    by_cases hlast : gs = []
    · -- no further group fits, so this is where the number has to end
      subst hlast
      rw [marked_nil, List.nil_append, hloose.spacedGroups?_eq_none, hend, List.length_nil,
        Nat.zero_add]
      rfl
    · rw [ih (fun c hc => hgs c (by simp [hc])) hlast]

theorem filter_blanks (hhead : Digits head) (hgs : Digits (joined gs)) (hfraction : Digits fraction) :
    (head ++ marked ' ' gs ++ fractionText ',' fraction).filter (fun c => !isBlank c) =
      head ++ joined gs ++ fractionText ',' fraction := by
  have hkeep : ∀ {cs : List Char}, (∀ c ∈ cs, c.isDigit = true ∨ c = ',') →
      cs.filter (fun c => !isBlank c) = cs := by
    refine fun h => List.filter_eq_self.2 fun c hc => ?_
    rcases h c hc with hdigit | rfl
    · rw [not_isBlank_of_isDigit hdigit]
      rfl
    · rfl
  have hmarked : (marked ' ' gs).filter (fun c => !isBlank c) = joined gs := by
    induction gs with
    | nil => rfl
    | cons g gs ih =>
      obtain ⟨x, y, z⟩ := g
      have hx := not_isBlank_of_isDigit (hgs x (by simp))
      have hy := not_isBlank_of_isDigit (hgs y (by simp))
      have hz := not_isBlank_of_isDigit (hgs z (by simp))
      have hspace : isBlank ' ' = true := rfl
      simp [hx, hy, hz, hspace, ih fun c hc => hgs c (by simp [hc])]
  rw [List.filter_append, List.filter_append, hmarked, hkeep fun c hc => .inl (hhead c hc),
    hkeep fun c hc => mem_fractionText hfraction hc]

/-- The rule for spaces takes a number in groups with its fraction. -/
theorem spaced_marked {before : Option Char} {c : Char} (hopens : opensWord before = true)
    (hhead : Digits (c :: head)) (hlen : head.length ≤ 2) (hgs : Digits (joined gs)) (hne : gs ≠ [])
    (hfraction : Digits fraction) (h : Behind behind) (hcloses : closesWord behind = true) :
    let taken := head ++ marked ' ' gs ++ fractionText ',' fraction
    spaced before c (taken ++ behind) =
      some ⟨taken.length, c :: head ++ joined gs ++ fractionText ',' fraction⟩ := by
  intro taken
  have hc : isDecimal c = true := hhead.isDecimal c (List.mem_cons_self ..)
  have hrun : Digits head := fun x hx => hhead x (List.mem_cons_of_mem _ hx)
  have hstart :
      (marked ' ' gs ++ (fractionText ',' fraction ++ behind)).head?.any isDecimal = false := by
    cases gs with
    | nil => exact absurd rfl hne
    | cons g gs => rfl
  have hsplit : taken ++ behind =
      head ++ (marked ' ' gs ++ (fractionText ',' fraction ++ behind)) := by
    simp only [taken, List.append_assoc]
  have hgroups := spacedGroups?_marked hgs hne (loose_fractionText hfraction rfl h.loose)
    (spacedEnd?_fractionText hfraction h hcloses)
  have hlength : head.length + ((marked ' ' gs).length + (fractionText ',' fraction).length) =
      taken.length := by
    simp only [taken, List.length_append]
    omega
  have hfilter := filter_blanks hhead hgs hfraction
  obtain ⟨htake, hdrop⟩ := hrun.takeWhile_dropWhile_append hstart
  unfold spaced
  rw [hopens, hc, hsplit]
  simp only [Bool.and_true, if_true]
  rw [htake, hdrop, if_pos hlen, hgroups, Option.map_some, hlength, ← hsplit, List.take_left]
  exact congrArg (fun cs => some (Stretch.mk taken.length cs)) hfilter

theorem sweep_spaced_marked (hpre : Before pre) (hhead : Digits head) (hne : head ≠ [])
    (hlen : head.length ≤ 3) (hgs : Digits (joined gs)) (hnegs : gs ≠ []) (hfraction : Digits fraction)
    (h : Behind behind) (hcloses : closesWord behind = true) :
    sweep spaced (pre ++ (head ++ marked ' ' gs ++ fractionText ',' fraction ++ behind)) =
      pre ++ (head ++ joined gs ++ fractionText ',' fraction ++ behind) := by
  refine sweep_append (fun c hc before cs => ?_) fun before hbefore => ?_
  · unfold spaced
    rw [(hpre c hc).2.1, Bool.and_false]
    rfl
  · have hopens : opensWord before = true := by
      rcases hbefore with rfl | ⟨c, hc, rfl⟩
      · rfl
      · rw [opensWord, Option.any_some, (hpre c hc).1]
        rfl
    cases head with
    | nil => exact absurd rfl hne
    | cons c head =>
      have hrun : head.length ≤ 2 := Nat.le_of_succ_le_succ hlen
      exact sweepFrom_once (spaced_marked hopens hhead hrun hgs hnegs hfraction h hcloses)
        h.loose.idle_spaced

/-! ### Points and commas -/

/-- Digits and separators, from a digit to a digit. -/
structure NumberText (seps cs : List Char) : Prop where
  chars : ∀ c ∈ cs, c.isDigit = true ∨ c ∈ seps
  first : cs.head?.any Char.isDigit = true
  last : cs.getLast?.any Char.isDigit = true

theorem getLast?_digits {ds : List Char} (cs : List Char) (hds : Digits ds) (hne : ds ≠ []) :
    (cs ++ ds).getLast?.any Char.isDigit = true := by
  rw [List.getLast?_append, List.getLast?_eq_some_getLast hne, Option.some_or, Option.any_some]
  exact hds _ (List.getLast_mem hne)

theorem numberText_marked (sep mark : Char) (hhead : Digits head) (hne : head ≠ [])
    (hgs : Digits (joined gs)) (hfraction : Digits fraction) :
    NumberText [sep, mark] (head ++ marked sep gs ++ fractionText mark fraction) := by
  refine ⟨fun c hc => ?chars, ?first, ?last⟩
  case chars =>
    rcases List.mem_append.1 hc with hc | hc
    · rcases List.mem_append.1 hc with hc | hc
      · exact .inl (hhead c hc)
      · obtain ⟨⟨x, y, z⟩, hg, hc⟩ := List.mem_flatMap.1 hc
        rcases List.mem_cons.1 hc with rfl | hc
        · exact .inr (List.mem_cons_self ..)
        · exact .inl (hgs c (List.mem_flatMap.2 ⟨_, hg, hc⟩))
    · rcases mem_fractionText hfraction hc with hc | rfl
      · exact .inl hc
      · exact .inr (by simp)
  case first =>
    cases head with
    | nil => exact absurd rfl hne
    | cons c head => exact hhead c (List.mem_cons_self ..)
  case last =>
    unfold fractionText
    split
    · rw [List.append_nil]
      rcases List.eq_nil_or_concat gs with rfl | ⟨init, ⟨x, y, z⟩, rfl⟩
      · rw [marked_nil, List.append_nil]
        exact getLast?_digits [] hhead hne
      · have hlast : Digits [x, y, z] := fun d hd =>
          hgs d (List.mem_flatMap.2 ⟨(x, y, z), by simp, hd⟩)
        have hsplit : head ++ marked sep (init.concat (x, y, z)) =
            head ++ (marked sep init ++ [sep]) ++ [x, y, z] := by
          simp [marked]
        rw [hsplit]
        exact getLast?_digits _ hlast (List.cons_ne_nil x [y, z])
    · next hnef =>
      rw [List.append_cons]
      exact getLast?_digits _ hfraction hnef

theorem numberText_mantissa {w : Written} (h : w.Proper) (mark : Char) :
    NumberText [mark] (w.mantissa mark) := by
  have hnone : Digits (joined []) := Digits.nil
  have hrow := numberText_marked mark mark h.whole h.nonempty hnone h.fraction
  rw [marked_nil, List.append_nil] at hrow
  exact ⟨fun c hc => (hrow.chars c hc).imp_right (by simp), hrow.first, hrow.last⟩

theorem numberText_grouped {w : Written} (h : w.Proper) (sep mark : Char) :
    NumberText [sep, mark] (w.grouped sep mark) := by
  obtain ⟨head, gs, hwhole, hne, -, hgroup⟩ := exists_groups h.nonempty
  have hparts := h.whole
  rw [hwhole] at hparts
  obtain ⟨hhead, hgs⟩ := Digits.append_iff.1 hparts
  rw [Written.grouped, hgroup]
  exact numberText_marked sep mark hhead hne hgs h.fraction

/-- The rule for separators takes the number up to its last digit. -/
theorem punctuated_number {seps run : List Char} {c : Char} (l : Locale)
    (hnumber : NumberText seps (c :: run)) (hseps : ∀ c ∈ seps, isNumberChar c = true)
    (h : Behind behind) (before : Option Char) :
    punctuated l before c (run ++ behind) =
      if run = [] then none else some ⟨run.length, plainNumber l (c :: run)⟩ := by
  have hdecimal : ∀ {x : Char}, x.isDigit = true → isDecimal x = true := fun hx =>
    (isDecimal_plain _ (mem_plainChars_of_isDigit hx)).trans hx
  have hchars : ∀ x ∈ run, isNumberChar x = true := by
    intro x hx
    rcases hnumber.chars x (List.mem_cons_of_mem _ hx) with hdigit | hsep
    · rw [isNumberChar, hdecimal hdigit]
      rfl
    · exact hseps x hsep
  have htake := (takeWhile_dropWhile_append hchars h.numberChar).1
  have hkeep : (run.reverse.dropWhile fun x => !isDecimal x).reverse = run := by
    rcases List.eq_nil_or_concat run with rfl | ⟨init, d, rfl⟩
    · rfl
    · have hd : isDecimal d = true := by
        have hlast := hnumber.last
        rw [List.concat_eq_append, ← List.cons_append, List.getLast?_concat] at hlast
        exact hdecimal hlast
      rw [List.concat_eq_append, List.reverse_concat, List.dropWhile_cons_of_neg (by simp [hd]),
        List.reverse_cons, List.reverse_reverse]
  unfold punctuated
  rw [if_pos (hdecimal hnumber.first), htake]
  dsimp only
  rw [hkeep]

/-- The number is read, and what stands around it is kept. -/
theorem sweep_punctuated {seps number : List Char} (l : Locale) (hpre : Before pre)
    (hnumber : NumberText seps number) (hseps : ∀ c ∈ seps, isNumberChar c = true)
    (h : Behind behind) :
    sweep (punctuated l) (pre ++ (number ++ behind)) = pre ++ (plainNumber l number ++ behind) := by
  have hidle : Idle (punctuated l) behind := idle_punctuated h.point h.comma l
  refine sweep_append (fun c hc before cs => ?_) fun before _ => ?_
  · unfold punctuated
    rw [(hpre c hc).2.1]
    rfl
  · cases number with
    | nil => exact nomatch hnumber.first
    | cons c run =>
      have hrule := punctuated_number l hnumber hseps h before
      by_cases hrun : run = []
      · -- the rule passes over a single digit
        subst hrun
        have hdigit : Digits [c] := List.forall_mem_singleton.2 hnumber.first
        rw [plainNumber_eq l hdigit.isDecimal, List.cons_append, sweepFrom_cons, hrule, if_pos rfl]
        exact congrArg (c :: ·) (hidle.sweepFrom_eq _ List.suffix_rfl)
      · rw [if_neg hrun] at hrule
        exact sweepFrom_once hrule hidle

end

/-! ### Both rules -/

section
variable {l : Locale} {w : Written} {pre behind : List Char}

theorem isNumberChar_decimalSeparator (hl : l ∈ Locale.catalog) :
    isNumberChar l.decimalSeparator = true := by
  rcases separators_of_mem hl with ⟨hmark, -⟩ | ⟨hmark, -⟩ <;> rw [hmark] <;> rfl

theorem sweep_punctuated_mantissa (hl : l ∈ Locale.catalog) (hpre : Before pre) (hw : w.Proper)
    (h : Behind behind) :
    sweep (punctuated l) (pre ++ (w.mantissa l.decimalSeparator ++ behind)) =
      pre ++ (w.mantissa '.' ++ behind) := by
  have hseps : ∀ c ∈ [l.decimalSeparator], isNumberChar c = true :=
    List.forall_mem_singleton.2 (isNumberChar_decimalSeparator hl)
  rw [sweep_punctuated l hpre (numberText_mantissa hw l.decimalSeparator) hseps h,
    plainNumber_mantissa hl hw]

/-- A number with its digits in a row is found and read. -/
theorem normalizeNumbers_mantissa (hl : l ∈ Locale.catalog) (hpre : Before pre) (hw : w.Proper)
    (h : Behind behind) :
    normalizeNumbers l (pre ++ (w.mantissa l.decimalSeparator ++ behind)) =
      pre ++ (w.mantissa '.' ++ behind) := by
  have hmark : isGroupSpace l.decimalSeparator = false := by
    rcases separators_of_mem hl with ⟨hmark, -⟩ | ⟨hmark, -⟩ <;> rw [hmark] <;> rfl
  have hloose : Loose (pre ++ (w.mantissa l.decimalSeparator ++ behind)) := by
    rw [Written.mantissa, List.append_assoc]
    refine .append (fun c hc => (hpre c hc).2.2) (.append (fun c hc => ?_) ?_)
    · exact not_isGroupSpace_of_isDigit (hw.whole c hc)
    · exact loose_fractionText hw.fraction hmark h.loose
  rw [normalizeNumbers, hloose.idle_spaced.sweep_eq, ite_self,
    sweep_punctuated_mantissa hl hpre hw h]

/-- A number in the groups of the locale is found and read. -/
theorem normalizeNumbers_grouped (hl : l ∈ Locale.catalog) (hpre : Before pre) (hw : w.Proper)
    (h : Behind behind) (hcloses : closesWord behind = true) :
    normalizeNumbers l (pre ++ (w.grouped l.groupSeparator l.decimalSeparator ++ behind)) =
      pre ++ (w.mantissa '.' ++ behind) := by
  obtain ⟨head, gs, hwhole, hne, hlen, hgroup⟩ := exists_groups hw.nonempty
  have hparts := hw.whole
  rw [hwhole] at hparts
  obtain ⟨hhead, hgs⟩ := Digits.append_iff.1 hparts
  by_cases hnegs : gs = []
  · -- a number of one part is shown in a row
    have hrow : w.grouped l.groupSeparator l.decimalSeparator = w.mantissa l.decimalSeparator := by
      rw [Written.grouped, Written.mantissa, hgroup, hwhole, hnegs]
      rfl
    rw [hrow]
    exact normalizeNumbers_mantissa hl hpre hw h
  have hplain : ∀ mark, w.mantissa mark = head ++ joined gs ++ fractionText mark w.fraction := by
    intro mark
    rw [Written.mantissa, hwhole]
  rw [Written.grouped, hgroup, normalizeNumbers]
  by_cases hblank : Text.isBlank l.groupSeparator = true
  · obtain ⟨hmark, hsep⟩ : l.decimalSeparator = ',' ∧ l.groupSeparator = ' ' := by
      rcases separators_of_mem hl with ⟨-, hsep⟩ | ⟨hmark, hsep | hsep⟩
      · rw [hsep] at hblank
        exact absurd hblank Bool.false_ne_true
      · rw [hsep] at hblank
        exact absurd hblank Bool.false_ne_true
      · exact ⟨hmark, hsep⟩
    have hspaced := sweep_spaced_marked hpre hhead hne hlen hgs hnegs hw.fraction h hcloses
    have hread := sweep_punctuated_mantissa hl hpre hw h
    rw [hmark, hplain ','] at hread
    rw [if_pos hblank, hsep, hmark, hspaced, hread]
  · have hsep : isNumberChar l.groupSeparator = true := by
      rcases separators_of_mem hl with ⟨-, hsep⟩ | ⟨-, hsep | hsep⟩
      · rw [hsep]
        rfl
      · rw [hsep]
        rfl
      · rw [hsep] at hblank
        exact absurd rfl hblank
    have hnumber := numberText_marked l.groupSeparator l.decimalSeparator hhead hne hgs hw.fraction
    have hseps : ∀ c ∈ [l.groupSeparator, l.decimalSeparator], isNumberChar c = true :=
      List.forall_mem_cons.2 ⟨hsep, List.forall_mem_singleton.2 (isNumberChar_decimalSeparator hl)⟩
    rw [if_neg hblank, sweep_punctuated l hpre hnumber hseps h, hplain '.',
      plainNumber_marked hl (Bool.eq_false_iff.2 hblank) hhead hne hlen hgs hnegs hw.fraction]

end

end Reckoner.Spelling

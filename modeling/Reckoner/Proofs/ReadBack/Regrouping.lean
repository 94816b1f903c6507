import Reckoner.Proofs.Spelling.Literals

/-!
# Numbers in groups that are not written so

A text is taken for a number in groups by the lengths of its groups alone
(`exists_marked_of_isGrouped`). The display would write the number with the same groups, unless the
text starts with a zero: `0.125` becomes `0125` in a locale whose groups stand behind points
(`plainNumber_zero`), and the number behind that text is shown as `125`. `plainNumber_regrouped` says
for all texts when the number is shown as it was typed.
-/

namespace Reckoner.Spelling

open Decimal (Digits Written fractionText)
open Display (groupDigits localize localize_mantissa)
open Text (isDecimal)
open Token (Literal)

/-! ### From a text to its groups -/

theorem joined_injective : ∀ {gs gs' : List Triple}, joined gs = joined gs' → gs = gs'
  | [], [], _ => rfl
  | [], (x, y, z) :: gs', h => nomatch h
  | (x, y, z) :: gs, [], h => nomatch h
  | (x, y, z) :: gs, (x', y', z') :: gs', h => by
    simp only [joined_cons, List.cons.injEq] at h
    obtain ⟨rfl, rfl, rfl, h⟩ := h
    rw [joined_injective h]

theorem mem_marked {sep c : Char} {gs : List Triple} (hc : c ∈ joined gs) : c ∈ marked sep gs := by
  induction gs with
  | nil => cases hc
  | cons g gs ih =>
    obtain ⟨x, y, z⟩ := g
    simp only [joined_cons, marked_cons, List.mem_cons] at hc ⊢
    rcases hc with hc | hc | hc | hc
    exacts [.inr (.inl hc), .inr (.inr (.inl hc)), .inr (.inr (.inr (.inl hc))),
      .inr (.inr (.inr (.inr (ih hc))))]

/-- Digits are grouped in one way only. -/
theorem groupDigits_joined {head : List Char} (hne : head ≠ []) (hlen : head.length ≤ 3) (sep : Char)
    (gs : List Triple) : groupDigits sep (head ++ joined gs) = head ++ marked sep gs := by
  have hwhole : head ++ joined gs ≠ [] := List.append_ne_nil_of_left_ne_nil hne _
  obtain ⟨head', gs', heq, hne', hlen', hgroup⟩ := exists_groups hwhole
  have hlength : head.length = head'.length := by
    have htotal := congrArg List.length heq
    rw [List.length_append, List.length_append, length_joined, length_joined] at htotal
    have := List.length_pos_iff.2 hne
    have := List.length_pos_iff.2 hne'
    omega
  obtain ⟨rfl, hjoined⟩ := List.append_inj heq hlength
  rw [hgroup sep, joined_injective hjoined]

theorem exists_marked_of_groupsThen {sep mark : Char} : ∀ {least : Nat} {cs : List Char},
    groupsThen sep mark least cs = true → ∃ gs fraction, least ≤ gs.length ∧
      cs = marked sep gs ++ fractionText mark fraction ∧ (∀ c ∈ joined gs, isDecimal c = true) ∧
      ∀ c ∈ fraction, isDecimal c = true
  | least, [], h => ⟨[], [], Nat.le_of_eq (eq_of_beq h), rfl, by simp, by simp⟩
  | least, c :: cs, h => by
    unfold groupsThen at h
    split at h
    · next hc =>
      split at h
      · next x y z rest =>
        simp only [Bool.and_eq_true] at h
        obtain ⟨⟨⟨hx, hy⟩, hz⟩, hrest⟩ := h
        obtain ⟨gs, fraction, hleast, rfl, hgs, hfraction⟩ := exists_marked_of_groupsThen hrest
        refine ⟨(x, y, z) :: gs, fraction, ?_, by rw [hc]; rfl, ?_, hfraction⟩
        · rw [List.length_cons]
          omega
        · simp only [joined_cons, List.mem_cons]
          rintro c (rfl | rfl | rfl | hc)
          exacts [hx, hy, hz, hgs c hc]
      · cases h
    · simp only [Bool.and_eq_true, beq_iff_eq, Bool.not_eq_true', List.isEmpty_eq_false_iff,
        List.all_eq_true] at h
      obtain ⟨⟨⟨hc, hleast⟩, hne⟩, hall⟩ := h
      refine ⟨[], cs, Nat.le_of_eq hleast, ?_, by simp, hall⟩
      rw [hc, fractionText, if_neg hne]
      rfl
termination_by _ cs => cs.length

theorem exists_marked_of_isGrouped {sep mark : Char} {t : List Char}
    (h : isGrouped sep mark t = true) : ∃ head gs fraction, head ≠ [] ∧ head.length ≤ 3 ∧ gs ≠ [] ∧
      t = head ++ marked sep gs ++ fractionText mark fraction ∧
      ∀ c ∈ head ++ joined gs ++ fraction, isDecimal c = true := by
  simp only [isGrouped, Bool.and_eq_true, decide_eq_true_eq] at h
  obtain ⟨⟨hpos, hlen⟩, hgroups⟩ := h
  obtain ⟨gs, fraction, hleast, hrest, hgs, hfraction⟩ := exists_marked_of_groupsThen hgroups
  refine ⟨_, gs, fraction, List.length_pos_iff.1 hpos, hlen, List.length_pos_iff.1 hleast, ?_, ?_⟩
  · rw [List.append_assoc, ← hrest, List.takeWhile_append_dropWhile]
  · simp only [List.mem_append]
    rintro c ((hc | hc) | hc)
    exacts [mem_takeWhile hc, hgs c hc, hfraction c hc]

section
variable {l : Locale} (hl : l ∈ Locale.catalog) {t : List Char}
include hl

/-- Only a number in groups loses characters. -/
theorem isGrouped_of_shorter (h : (plainNumber l t).length < t.length) :
    Text.isBlank l.groupSeparator = false ∧
      isGrouped l.groupSeparator l.decimalSeparator t = true := by
  have hpointed : ¬ (t.map fun c => if c = ',' then '.' else c).length < t.length := by
    rw [List.length_map]
    exact Nat.lt_irrefl _
  unfold plainNumber at h
  dsimp only at h
  rcases separators_of_mem hl with ⟨hmark, hsep⟩ | ⟨hmark, hsep | hsep⟩
  · rw [hmark, if_pos rfl] at h
    rw [hmark, hsep]
    split at h
    · next hgrouped => exact ⟨rfl, hgrouped⟩
    · exact absurd h (Nat.lt_irrefl _)
  · rw [hmark, if_neg (by decide), hsep] at h
    rw [hmark, hsep]
    split at h
    · next hgrouped => exact ⟨rfl, hgrouped.2⟩
    · split at h
      · exact absurd h hpointed
      · exact absurd h (Nat.lt_irrefl _)
  · rw [hmark, if_neg (by decide), hsep, if_neg (by simp)] at h
    split at h
    · exact absurd h hpointed
    · exact absurd h (Nat.lt_irrefl _)

end

/-- Digits, whatever their script, are never left out. -/
theorem mem_plainNumber (l : Locale) {t : List Char} {c : Char} (hc : c ∈ t) (hpoint : c ≠ '.')
    (hcomma : c ≠ ',') : c ∈ plainNumber l t := by
  have hpointed : ∀ {cs : List Char}, c ∈ cs → c ∈ cs.map fun c => if c = ',' then '.' else c :=
    fun hcs => List.mem_map.2 ⟨c, hcs, if_neg hcomma⟩
  have hkept : ∀ {sep : Char}, c ≠ sep → c ∈ t.filter (· != sep) := fun hne =>
    List.mem_filter.2 ⟨hc, bne_iff_ne.2 hne⟩
  unfold plainNumber
  dsimp only
  split
  · split
    · exact hkept hcomma
    · exact hc
  · split
    · exact hpointed (hkept hpoint)
    · split
      · exact hpointed hc
      · exact hc

/-- With a digit of another script the text is no number, in groups or not. -/
theorem not_literal_plainNumber (l : Locale) {t : List Char}
    (hother : ∃ c ∈ t, isDecimal c = true ∧ c.isDigit = false) (x : Float) :
    ¬ Literal (plainNumber l t) x := by
  have hdigits : ∀ c ∈ figureChars ++ markLetters, isDecimal c = c.isDigit :=
    List.all_iff_forall_prop.1 (by decide)
  obtain ⟨c, hc, hdecimal, hdigit⟩ := hother
  have hpoint : c ≠ '.' := by
    rintro rfl
    cases hdecimal
  have hcomma : c ≠ ',' := by
    rintro rfl
    cases hdecimal
  intro h
  have hsame := hdigits c (mem_literalChars h (mem_plainNumber l hc hpoint hcomma))
  cases hdecimal.symm.trans (hsame.trans hdigit)

/-! ### What is shown again -/

/-- Digits without the zeros that they start with, except for a single zero. -/
def withoutZeros (whole : List Char) : List Char :=
  if whole.dropWhile (· == '0') = [] then ['0'] else whole.dropWhile (· == '0')

/-- A plain number without superfluous zeros at its start. -/
def withoutLeadingZeros (cs : List Char) : List Char :=
  withoutZeros (cs.takeWhile (· != '.')) ++ cs.dropWhile (· != '.')

theorem withoutZeros_eq_self {c : Char} {cs : List Char} (hcs : cs ≠ []) :
    withoutZeros (c :: cs) = c :: cs ↔ c ≠ '0' := by
  constructor
  · rintro h rfl
    have hlength := congrArg List.length h
    have hsuffix := (List.dropWhile_suffix (· == '0') (l := cs)).length_le
    have hpos := List.length_pos_iff.2 hcs
    rw [withoutZeros, List.dropWhile_cons_of_pos rfl, List.length_cons] at hlength
    split at hlength
    · rw [List.length_singleton] at hlength
      omega
    · omega
  · intro hc
    rw [withoutZeros, List.dropWhile_cons_of_neg (by simp [hc]), if_neg (by simp)]

theorem proper_withoutZeros {w : Written} (hw : w.Proper) :
    ({ w with whole := withoutZeros w.whole } : Written).Proper := by
  refine ⟨?_, ?_, hw.fraction⟩
  · show withoutZeros w.whole ≠ []
    unfold withoutZeros
    split
    · simp
    · assumption
  · show Digits (withoutZeros w.whole)
    unfold withoutZeros
    split
    · exact List.forall_mem_singleton.2 rfl
    · exact fun c hc => hw.whole c ((List.dropWhile_suffix _).mem hc)

theorem withoutLeadingZeros_mantissa {w : Written} (hw : w.Proper) :
    withoutLeadingZeros (w.mantissa '.') =
      ({ w with whole := withoutZeros w.whole } : Written).mantissa '.' := by
  obtain ⟨htake, hdrop⟩ := Display.takeWhile_dropWhile_mantissa hw
  rw [withoutLeadingZeros, htake, hdrop]
  rfl

theorem filter_groupDigits {sep : Char} (hsep : sep.isDigit = false) {whole : List Char}
    (hne : whole ≠ []) (hwhole : Digits whole) :
    (groupDigits sep whole).filter (· != sep) = whole := by
  obtain ⟨head, gs, rfl, -, -, hgroup⟩ := exists_groups hne
  obtain ⟨hhead, hgs⟩ := Digits.append_iff.1 hwhole
  have hnil : sep ∉ ([] : List Char) := List.not_mem_nil
  have hfilter := filter_marked (hhead.not_mem hsep) (hgs.not_mem hsep) hnil
  rw [hgroup sep]
  simpa using hfilter

/-- Numbers with the same fraction are shown alike only if their digits are the same. -/
theorem grouped_inj {sep mark : Char} {w w' : Written} (hsep : sep.isDigit = false)
    (hw : w.Proper) (hw' : w'.Proper) (hfraction : w.fraction = w'.fraction) :
    w.grouped sep mark = w'.grouped sep mark ↔ w.whole = w'.whole := by
  constructor
  · intro h
    rw [Written.grouped, Written.grouped, hfraction] at h
    have hgroups := congrArg (List.filter (· != sep)) (List.append_cancel_right h)
    rwa [filter_groupDigits hsep hw.nonempty hw.whole,
      filter_groupDigits hsep hw'.nonempty hw'.whole] at hgroups
  · intro h
    rw [Written.grouped, Written.grouped, h, hfraction]

section
variable {l : Locale} (hl : l ∈ Locale.catalog)
include hl

omit hl in
/-- The parts of a grouped text of digits, points and commas are digits. -/
theorem digits_parts {sep mark : Char} {head fraction : List Char} {gs : List Triple}
    (ht : ∀ c ∈ head ++ marked sep gs ++ fractionText mark fraction,
      c.isDigit = true ∨ c = '.' ∨ c = ',')
    (hdecimal : ∀ c ∈ head ++ joined gs ++ fraction, isDecimal c = true) :
    Digits (head ++ joined gs ++ fraction) := by
  intro c hc
  have hmem : c ∈ head ++ marked sep gs ++ fractionText mark fraction := by
    simp only [List.mem_append] at hc ⊢
    refine hc.imp (Or.imp_right mem_marked) fun hc => ?_
    rw [fractionText, if_neg (List.ne_nil_of_mem hc)]
    exact List.mem_cons_of_mem _ hc
  rcases ht c hmem with hdigit | rfl | rfl
  · exact hdigit
  · cases hdecimal '.' hc
  · cases hdecimal ',' hc

/-- A number in groups is shown as it was typed unless it starts with a zero. -/
theorem localize_joined_iff {head fraction : List Char} {gs : List Triple} (hne : head ≠ [])
    (hlen : head.length ≤ 3) (hnegs : gs ≠ []) (hwhole : Digits (head ++ joined gs))
    (hfraction : Digits fraction) :
    localize l (withoutLeadingZeros (head ++ joined gs ++ fractionText '.' fraction)) =
        head ++ marked l.groupSeparator gs ++ fractionText l.decimalSeparator fraction ↔
      head.head? ≠ some '0' := by
  let w : Written := ⟨head ++ joined gs, fraction, none⟩
  have hw : w.Proper := ⟨List.append_ne_nil_of_left_ne_nil hne _, hwhole, hfraction⟩
  have hw' := proper_withoutZeros hw
  have hshown : w.grouped l.groupSeparator l.decimalSeparator =
      head ++ marked l.groupSeparator gs ++ fractionText l.decimalSeparator fraction := by
    rw [Written.grouped, groupDigits_joined hne hlen]
  have hsep : l.groupSeparator.isDigit = false := by
    rcases separators_of_mem hl with ⟨-, hsep⟩ | ⟨-, hsep | hsep⟩ <;> rw [hsep] <;> rfl
  have hlocal : localize l (withoutLeadingZeros (w.mantissa '.')) =
      ({ w with whole := withoutZeros w.whole } : Written).grouped l.groupSeparator
        l.decimalSeparator := by
    rw [withoutLeadingZeros_mantissa hw]
    exact localize_mantissa hw' false l
  rw [show head ++ joined gs ++ fractionText '.' fraction = w.mantissa '.' from rfl, hlocal,
    ← hshown, grouped_inj hsep hw' hw rfl]
  obtain ⟨c, cs, rfl⟩ := List.exists_cons_of_ne_nil hne
  have hrest : cs ++ joined gs ≠ [] := by
    obtain ⟨⟨x, y, z⟩, gs, rfl⟩ := List.exists_cons_of_ne_nil hnegs
    simp
  show withoutZeros (c :: (cs ++ joined gs)) = c :: (cs ++ joined gs) ↔ some c ≠ some '0'
  rw [withoutZeros_eq_self hrest, ne_eq, ne_eq, Option.some_inj]

theorem localize_plainNumber_iff {t : List Char}
    (ht : ∀ c ∈ t, c.isDigit = true ∨ c = '.' ∨ c = ',')
    (h : (plainNumber l t).length < t.length) :
    localize l (withoutLeadingZeros (plainNumber l t)) = t ↔ t.head? ≠ some '0' := by
  obtain ⟨hblank, hgrouped⟩ := isGrouped_of_shorter hl h
  obtain ⟨head, gs, fraction, hne, hlen, hnegs, rfl, hdecimal⟩ := exists_marked_of_isGrouped hgrouped
  obtain ⟨hwhole, hfraction⟩ := Digits.append_iff.1 (digits_parts ht hdecimal)
  obtain ⟨hhead, hgs⟩ := Digits.append_iff.1 hwhole
  rw [plainNumber_marked hl hblank hhead hne hlen hgs hnegs hfraction,
    localize_joined_iff hl hne hlen hnegs hwhole hfraction, List.append_assoc,
    List.head?_append_of_ne_nil _ hne]

/-! ### A zero in front of the separator -/

omit hl in
theorem groupsThen_digits {sep mark : Char} (hsep : sep.isDigit = false) (hmark : mark.isDigit = false)
    {digits : List Char} (hdigits : Digits digits) :
    groupsThen sep mark 0 digits = true ↔ digits = [] := by
  cases digits with
  | nil => exact iff_of_true rfl rfl
  | cons d digits =>
    have hd := hdigits d (List.mem_cons_self ..)
    have hne : ∀ {c : Char}, c.isDigit = false → d ≠ c := fun hc heq =>
      nomatch (heq ▸ hd).symm.trans hc
    unfold groupsThen
    rw [if_neg (hne hsep), beq_eq_false_iff_ne.2 (hne hmark)]
    simp

omit hl in
/-- Behind a single zero, exactly three digits are taken for a group. -/
theorem isGrouped_zero {sep mark c : Char} (hsep : sep.isDigit = false) (hmark : mark.isDigit = false)
    (hc : isDecimal c = false) {digits : List Char} (hdigits : Digits digits) :
    isGrouped sep mark ('0' :: c :: digits) = true ↔ c = sep ∧ digits.length = 3 := by
  have hhead : isGrouped sep mark ('0' :: c :: digits) = groupsThen sep mark 1 (c :: digits) := by
    rw [isGrouped, List.takeWhile_cons_of_pos rfl, List.dropWhile_cons_of_pos rfl,
      List.takeWhile_cons_of_neg (by simp [hc]), List.dropWhile_cons_of_neg (by simp [hc])]
    rfl
  rw [hhead]
  unfold groupsThen
  by_cases heq : c = sep
  · rw [if_pos heq]
    obtain _ | ⟨x, _ | ⟨y, _ | ⟨z, rest⟩⟩⟩ := digits
    · simp
    · simp
    · simp
    · have hdecimal := hdigits.isDecimal
      have hrest : Digits rest := fun d hd => hdigits d (by simp [hd])
      dsimp only
      rw [hdecimal x (by simp), hdecimal y (by simp), hdecimal z (by simp)]
      simp [groupsThen_digits hsep hmark hrest, heq]
  · rw [if_neg heq]
    simp [heq]

/-- What becomes of a single zero with digits behind a point or a comma. -/
theorem plainNumber_zero {mark : Char} (hmark : mark = '.' ∨ mark = ',') {digits : List Char}
    (hdigits : Digits digits) (hne : digits ≠ []) :
    plainNumber l ('0' :: mark :: digits) =
      if mark = l.groupSeparator ∧ digits.length = 3 then '0' :: digits
      else if mark = l.decimalSeparator then '0' :: '.' :: digits else '0' :: mark :: digits := by
  have hzero : Digits ['0'] := List.forall_mem_singleton.2 rfl
  have hdecimal : isDecimal mark = false := by rcases hmark with rfl | rfl <;> rfl
  split
  · next hif =>
    obtain ⟨rfl, hlength⟩ := hif
    obtain ⟨x, y, z, rfl⟩ := List.length_eq_three.1 hlength
    have hblank : Text.isBlank l.groupSeparator = false := by
      rcases hmark with hmark | hmark <;> rw [hmark] <;> rfl
    have hgroup : Digits (joined [(x, y, z)]) := hdigits
    have hplain := plainNumber_marked hl hblank hzero (by simp) (by simp) hgroup (by simp) Digits.nil
    simpa [fractionText] using hplain
  · next hif =>
    split
    · next hpoint =>
      let w : Written := ⟨['0'], digits, none⟩
      have hw : w.Proper := ⟨by simp [w], hzero, hdigits⟩
      have hplain := plainNumber_mantissa hl hw
      simpa [w, Written.mantissa, fractionText, hne, hpoint] using hplain
    · next hpoint =>
      have hgrouped : ∀ {sep' mark' : Char}, sep' = l.groupSeparator → sep'.isDigit = false →
          mark'.isDigit = false → ¬ isGrouped sep' mark' ('0' :: mark :: digits) = true := by
        intro sep' mark' hsep hsep' hmark' h
        obtain ⟨heq, hlength⟩ := (isGrouped_zero hsep' hmark' hdecimal hdigits).1 h
        exact hif ⟨heq.trans hsep, hlength⟩
      unfold plainNumber
      dsimp only
      rcases separators_of_mem hl with ⟨hdec, hsep⟩ | ⟨hdec, hsep⟩
      · rw [hdec, if_pos rfl, if_neg (hgrouped hsep.symm rfl rfl)]
      · have hcomma : isCommaDecimal ('0' :: mark :: digits) = false := by
          have hpoint : mark = '.' := hmark.resolve_right (hdec ▸ hpoint)
          rw [isCommaDecimal, List.takeWhile_cons_of_pos rfl, List.dropWhile_cons_of_pos rfl,
            List.dropWhile_cons_of_neg (by simp [hdecimal]), hpoint]
          simp
        rw [hdec, if_neg (by decide), if_neg, hcomma, if_neg Bool.false_ne_true]
        rintro ⟨hgroup, h⟩
        exact hgrouped hgroup.symm rfl rfl h

/-- Behind a single zero, three digits of a group make a number of one or more unless they are zeros
too; other numbers with a single zero stay below one. -/
theorem one_le_plainNumber_zero {mark : Char} (hmark : mark = '.' ∨ mark = ',') {digits : List Char}
    (hdigits : Digits digits) (hne : digits ≠ []) :
    1 ≤ Decimal.ofDigits 10 ((plainNumber l ('0' :: mark :: digits)).takeWhile Char.isDigit) ↔
      mark = l.groupSeparator ∧ digits.length = 3 ∧ digits ≠ ['0', '0', '0'] := by
  rw [plainNumber_zero hl hmark hdigits hne]
  split
  · next hif =>
    obtain ⟨hgroup, hlength⟩ := hif
    have hvalue : ∀ c ∈ digitChars, (Decimal.digitValue c = 0 ↔ c = '0') :=
      List.all_iff_forall_prop.1 (by decide)
    have hall : ∀ c ∈ '0' :: digits, c.isDigit = true := List.forall_mem_cons.2 ⟨rfl, hdigits⟩
    rw [List.takeWhile_eq_self_iff.2 hall, Decimal.ofDigits_eq_foldl]
    obtain ⟨x, y, z, rfl⟩ := List.length_eq_three.1 hlength
    have hx := hvalue x (mem_digitChars (hdigits x (by simp)))
    have hy := hvalue y (mem_digitChars (hdigits y (by simp)))
    have hz := hvalue z (mem_digitChars (hdigits z (by simp)))
    have hzero : Decimal.digitValue '0' = 0 := rfl
    simp only [hgroup, List.foldl_cons, List.foldl_nil, hzero, List.length_cons, List.length_nil,
      ne_eq, List.cons.injEq, and_true, true_and, ← hx, ← hy, ← hz]
    omega
  · next hif =>
    have hzero : ∀ {c : Char} {cs : List Char}, c.isDigit = false →
        Decimal.ofDigits 10 (('0' :: c :: cs).takeWhile Char.isDigit) = 0 := by
      intro c cs hc
      rw [List.takeWhile_cons_of_pos rfl, List.takeWhile_cons_of_neg (by simp [hc])]
      rfl
    have hmark' : mark.isDigit = false := by rcases hmark with rfl | rfl <;> rfl
    refine iff_of_false ?_ fun h => hif ⟨h.1, h.2.1⟩
    split
    · rw [hzero rfl]
      exact Nat.not_succ_le_zero 0
    · rw [hzero hmark']
      exact Nat.not_succ_le_zero 0

end

/-- For a text of digits, points and commas. If group separators are left out, then the display
writes the number as the text was typed unless the text starts with a zero. With digits of another
script than ASCII the text is no number anyway. A single zero with digits behind a point or a comma is
taken for one or more exactly if the digits are a group of three and not all zeros. -/
theorem plainNumber_regrouped {l : Locale} (hl : l ∈ Locale.catalog) {t : List Char}
    (ht : ∀ c ∈ t, isNumberChar c = true) :
    ((∀ c ∈ t, isDecimal c = true → c.isDigit = true) → (plainNumber l t).length < t.length →
      (localize l (withoutLeadingZeros (plainNumber l t)) = t ↔ t.head? ≠ some '0')) ∧
    ((∃ c ∈ t, isDecimal c = true ∧ c.isDigit = false) → ∀ x, ¬ Literal (plainNumber l t) x) ∧
    ∀ mark digits, t = '0' :: mark :: digits → mark = '.' ∨ mark = ',' → Digits digits →
      digits ≠ [] →
        (1 ≤ Decimal.ofDigits 10 ((plainNumber l t).takeWhile Char.isDigit) ↔
          mark = l.groupSeparator ∧ digits.length = 3 ∧ digits ≠ ['0', '0', '0']) := by
  refine ⟨fun hascii hshorter => ?_, not_literal_plainNumber l, ?_⟩
  · refine localize_plainNumber_iff hl (fun c hc => ?_) hshorter
    have hnumber := ht c hc
    simp only [isNumberChar, Bool.or_eq_true, beq_iff_eq, or_assoc] at hnumber
    exact hnumber.imp_left (hascii c hc)
  · rintro mark digits rfl hmark hdigits hne
    exact one_le_plainNumber_zero hl hmark hdigits hne

theorem plainNumber_regrouped_german :
    localize .german (withoutLeadingZeros (plainNumber .german "1.234,5".toList)) =
      "1.234,5".toList := by
  have hl : Locale.german ∈ Locale.catalog := by decide
  have ht : ∀ c ∈ "1.234,5".toList, isNumberChar c = true :=
    List.all_iff_forall_prop.1 (by decide +kernel)
  have hascii : ∀ c ∈ "1.234,5".toList, isDecimal c = true → c.isDigit = true :=
    List.all_iff_forall_prop.1 (by decide +kernel)
  have hshorter : (plainNumber .german "1.234,5".toList).length < "1.234,5".toList.length := by
    decide +kernel
  exact ((plainNumber_regrouped hl ht).1 hascii hshorter).2 (by decide +kernel)

/-- A number below one is read as a hundred and twenty-five. -/
theorem plainNumber_regrouped_zero :
    plainNumber .german "0.125".toList = "0125".toList ∧
      localize .german (withoutLeadingZeros (plainNumber .german "0.125".toList)) = "125".toList := by
  decide +kernel

end Reckoner.Spelling

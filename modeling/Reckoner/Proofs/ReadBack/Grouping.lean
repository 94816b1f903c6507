import Reckoner.Display
import Reckoner.Proofs.Sweeping

/-!
# Numbers in groups of three digits

A number is shown with its digits in a row (`Written.mantissa`) or in groups (`Written.grouped`).
Grouping cuts the digits into a first part of one to three and groups of three, each behind a
separator (`exists_groups`). A number in groups behind points or commas is one of the locale, and
without its separators it is the number that was shown (`plainNumber_marked`); a number in a row only
gets its point back (`plainNumber_mantissa`).
-/

namespace Reckoner.Decimal

/-- The text has ASCII digits only. -/
def Digits (cs : List Char) : Prop := ∀ c ∈ cs, c.isDigit = true

namespace Digits
variable {cs ds : List Char} {c : Char}

theorem nil : Digits [] := fun _ h => absurd h List.not_mem_nil

theorem append_iff : Digits (cs ++ ds) ↔ Digits cs ∧ Digits ds := List.forall_mem_append

theorem isDecimal (h : Digits cs) : ∀ c ∈ cs, Text.isDecimal c = true := fun c hc =>
  (Spelling.isDecimal_plain c (Spelling.mem_plainChars_of_isDigit (h c hc))).trans (h c hc)

theorem not_mem (h : Digits cs) (hc : c.isDigit = false) : c ∉ cs := fun hmem =>
  nomatch (h c hmem).symm.trans hc

theorem takeWhile_dropWhile_append (h : Digits cs) (hds : ds.head?.any Text.isDecimal = false) :
    (cs ++ ds).takeWhile Text.isDecimal = cs ∧ (cs ++ ds).dropWhile Text.isDecimal = ds := by
  refine Spelling.takeWhile_dropWhile_append h.isDecimal fun c rest heq => ?_
  rw [heq] at hds
  exact hds

end Digits

/-- A fraction behind its mark, which is there only with digits to follow. -/
def fractionText (mark : Char) (fraction : List Char) : List Char :=
  if fraction = [] then [] else mark :: fraction

section
variable {mark c : Char} {fraction : List Char}

theorem mem_fractionText (hfraction : Digits fraction) (h : c ∈ fractionText mark fraction) :
    c.isDigit = true ∨ c = mark := by
  unfold fractionText at h
  split at h
  · exact absurd h List.not_mem_nil
  · exact (List.mem_cons.1 h).symm.imp_left (hfraction c)

theorem not_mem_fractionText (hfraction : Digits fraction) (hc : c.isDigit = false)
    (hmark : c ≠ mark) : c ∉ fractionText mark fraction := fun h =>
  (mem_fractionText hfraction h).elim (fun hdigit => nomatch hc.symm.trans hdigit) hmark

theorem head_fractionText (hmark : Text.isDecimal mark = false) :
    (fractionText mark fraction).head?.any Text.isDecimal = false := by
  unfold fractionText
  split
  · rfl
  · exact hmark

end

namespace Written

/-- Digits, and a fraction if there are digits of one. -/
structure Proper (w : Written) : Prop where
  nonempty : w.whole ≠ []
  whole : Digits w.whole
  fraction : Digits w.fraction

/-- The digits of a number, with the mark of its fraction. -/
def mantissa (mark : Char) (w : Written) : List Char := w.whole ++ fractionText mark w.fraction

/-- The digits of a number in groups. -/
def grouped (sep mark : Char) (w : Written) : List Char :=
  Display.groupDigits sep w.whole ++ fractionText mark w.fraction

end Written

end Reckoner.Decimal

namespace Reckoner.Spelling

open Decimal (Digits Written fractionText not_mem_fractionText head_fractionText)
open Display (groupDigits)
open Text (isDecimal)

/-! ### Groups -/

/-- Three digits. -/
abbrev Triple := Char × Char × Char

/-- Groups of digits in a row. -/
def joined (gs : List Triple) : List Char := gs.flatMap fun (x, y, z) => [x, y, z]

/-- Groups of digits, each behind a separator. -/
def marked (sep : Char) (gs : List Triple) : List Char := gs.flatMap fun (x, y, z) => [sep, x, y, z]

section
variable (sep x y z : Char) (gs : List Triple)

@[simp] theorem joined_nil : joined [] = [] := rfl

@[simp] theorem marked_nil : marked sep [] = [] := rfl

@[simp] theorem joined_cons : joined ((x, y, z) :: gs) = x :: y :: z :: joined gs := rfl

@[simp] theorem marked_cons : marked sep ((x, y, z) :: gs) = sep :: x :: y :: z :: marked sep gs := rfl

end

theorem length_joined : ∀ gs : List Triple, (joined gs).length = 3 * gs.length
  | [] => rfl
  | (x, y, z) :: gs => by
    simp only [joined_cons, List.length_cons, length_joined gs]
    omega

/-- A number is one to three digits and groups of three, and grouping it puts a separator before each
of the groups. -/
theorem exists_groups : ∀ {whole : List Char}, whole ≠ [] →
    ∃ head gs, whole = head ++ joined gs ∧ head ≠ [] ∧ head.length ≤ 3 ∧
      ∀ sep, groupDigits sep whole = head ++ marked sep gs
  | [], h => absurd rfl h
  | [c], _ => ⟨[c], [], rfl, by simp, by simp, fun _ => rfl⟩
  | c :: d :: rest, _ => by
    obtain ⟨head, gs, hrest, hne, hlen, hgroup⟩ := exists_groups (List.cons_ne_nil d rest)
    have hcount : (d :: rest).length = head.length + 3 * gs.length := by
      rw [hrest, List.length_append, length_joined]
    by_cases h : (d :: rest).length % 3 = 0
    · -- the digits before the first separator so far are a group of their own
      have hhead : 0 < head.length := List.length_pos_iff.2 hne
      obtain ⟨x, y, z, rfl⟩ : ∃ x y z, head = [x, y, z] := by
        match head, (show head.length = 3 by omega) with
        | [x, y, z], _ => exact ⟨x, y, z, rfl⟩
      refine ⟨[c], (x, y, z) :: gs, by simp [hrest], by simp, by simp, fun sep => ?_⟩
      rw [groupDigits, if_pos ⟨List.cons_ne_nil d rest, h⟩, hgroup sep]
      rfl
    · refine ⟨c :: head, gs, by rw [hrest]; rfl, by simp, ?_, fun sep => ?_⟩
      · rw [List.length_cons]
        omega
      · rw [groupDigits, if_neg fun h' => h h'.2, hgroup sep]
        rfl

/-! ### Reading groups -/

section
variable {sep mark : Char} {gs : List Triple}

theorem groupsThen_marked (hgs : Digits (joined gs)) (least : Nat) (cs : List Char) :
    groupsThen sep mark least (marked sep gs ++ cs) = groupsThen sep mark (least - gs.length) cs := by
  induction gs generalizing least with
  | nil => rfl
  | cons g gs ih =>
    obtain ⟨x, y, z⟩ := g
    have hdecimal := hgs.isDecimal
    have hrest : Digits (joined gs) := fun c hc => hgs c (by simp [hc])
    rw [marked_cons, List.cons_append, List.cons_append, List.cons_append, List.cons_append,
      groupsThen, if_pos rfl, hdecimal x (by simp), hdecimal y (by simp), hdecimal z (by simp),
      ih hrest, List.length_cons, Nat.sub_sub, Nat.add_comm 1]
    rfl

theorem groupsThen_fractionText {fraction : List Char} (hmark : mark ≠ sep)
    (hfraction : Digits fraction) : groupsThen sep mark 0 (fractionText mark fraction) = true := by
  have hall : fraction.all isDecimal = true := List.all_eq_true.2 hfraction.isDecimal
  cases fraction with
  | nil => rfl
  | cons c fraction =>
    rw [fractionText, if_neg (List.cons_ne_nil c fraction)]
    unfold groupsThen
    rw [if_neg hmark, hall]
    simp

theorem filter_marked {head cs : List Char} (hhead : sep ∉ head) (hgs : sep ∉ joined gs)
    (hcs : sep ∉ cs) :
    (head ++ marked sep gs ++ cs).filter (· != sep) = head ++ joined gs ++ cs := by
  have hkeep : ∀ {xs : List Char}, sep ∉ xs → xs.filter (· != sep) = xs := fun h =>
    List.filter_eq_self.2 fun x hx => bne_iff_ne.2 fun heq => h (heq ▸ hx)
  have hmarked : (marked sep gs).filter (· != sep) = joined gs := by
    induction gs with
    | nil => rfl
    | cons g gs ih =>
      obtain ⟨x, y, z⟩ := g
      simp only [joined_cons, List.mem_cons, not_or] at hgs
      obtain ⟨hx, hy, hz, hgs⟩ := hgs
      simp [ih hgs, Ne.symm hx, Ne.symm hy, Ne.symm hz]
  rw [List.filter_append, List.filter_append, hkeep hhead, hkeep hcs, hmarked]

end

/-! ### Reading numbers -/

/-- The separators that the locales use: one of them is a point and the other a comma, or groups
stand behind spaces. -/
theorem separators_of_mem {l : Locale} (hl : l ∈ Locale.catalog) :
    l.decimalSeparator = '.' ∧ l.groupSeparator = ',' ∨
      l.decimalSeparator = ',' ∧ (l.groupSeparator = '.' ∨ l.groupSeparator = ' ') :=
  (by decide : ∀ l ∈ Locale.catalog, l.decimalSeparator = '.' ∧ l.groupSeparator = ',' ∨
    l.decimalSeparator = ',' ∧ (l.groupSeparator = '.' ∨ l.groupSeparator = ' ')) l hl

section
variable {l : Locale} {w : Written} {head fraction : List Char} {gs : List Triple}

/-- The decimal comma becomes a point. -/
theorem map_fractionText {whole : List Char} (hwhole : Digits whole) (hfraction : Digits fraction) :
    (whole ++ fractionText ',' fraction).map (fun c => if c = ',' then '.' else c) =
      whole ++ fractionText '.' fraction := by
  have hdigits : ∀ {ds : List Char}, Digits ds →
      ds.map (fun c => if c = ',' then '.' else c) = ds := by
    intro ds hds
    refine (List.map_congr_left fun c hc => if_neg fun h => ?_).trans (List.map_id _)
    exact hds.not_mem rfl (h ▸ hc)
  rw [List.map_append, hdigits hwhole]
  unfold fractionText
  split
  · rfl
  · rw [List.map_cons, if_pos rfl, hdigits hfraction]

theorem isCommaDecimal_mantissa (h : w.Proper) (hne : w.fraction ≠ []) :
    isCommaDecimal (w.mantissa ',') = true := by
  have hhead : (fractionText ',' w.fraction).head?.any isDecimal = false := head_fractionText rfl
  have hall : w.fraction.all isDecimal = true := List.all_eq_true.2 h.fraction.isDecimal
  obtain ⟨htake, hdrop⟩ := h.whole.takeWhile_dropWhile_append hhead
  rw [isCommaDecimal, Written.mantissa, htake, hdrop, fractionText, if_neg hne]
  simp [h.nonempty, hne, hall]

/-- Digits in a row are read as they are shown, but for the mark of the fraction. -/
theorem plainNumber_mantissa (hl : l ∈ Locale.catalog) (h : w.Proper) :
    plainNumber l (w.mantissa l.decimalSeparator) = w.mantissa '.' := by
  have hfilter : ∀ {sep mark : Char}, sep.isDigit = false → sep ≠ mark →
      (w.mantissa mark).filter (· != sep) = w.mantissa mark := by
    intro sep mark hsep hmark
    have hjoined : sep ∉ joined [] := List.not_mem_nil
    have hrow := filter_marked (h.whole.not_mem hsep) hjoined
      (not_mem_fractionText h.fraction hsep hmark)
    rwa [marked_nil, joined_nil, List.append_nil] at hrow
  have hcomma := map_fractionText h.whole h.fraction
  unfold plainNumber
  dsimp only
  rcases separators_of_mem hl with ⟨hmark, -⟩ | ⟨hmark, -⟩
  · rw [hmark, if_pos rfl, hfilter rfl (by decide), ite_self]
  · rw [hmark, if_neg (by decide), hfilter rfl (by decide)]
    by_cases hne : w.fraction = []
    · have hsame : w.mantissa ',' = w.mantissa '.' := by
        rw [Written.mantissa, Written.mantissa, hne]
        rfl
      rw [show (w.mantissa ',').map _ = w.mantissa '.' from hcomma, hsame, ite_self, ite_self]
    · rw [if_pos (isCommaDecimal_mantissa h hne), ite_self]
      exact hcomma

theorem isGrouped_marked {sep mark : Char} (hsep : isDecimal sep = false) (hmark : mark ≠ sep)
    (hhead : Digits head) (hne : head ≠ []) (hlen : head.length ≤ 3) (hgs : Digits (joined gs))
    (hnegs : gs ≠ []) (hfraction : Digits fraction) :
    isGrouped sep mark (head ++ marked sep gs ++ fractionText mark fraction) = true := by
  have hstart : (marked sep gs ++ fractionText mark fraction).head?.any isDecimal = false := by
    cases gs with
    | nil => exact absurd rfl hnegs
    | cons g gs => exact hsep
  have hleast : 1 - gs.length = 0 := by
    have := List.length_pos_iff.2 hnegs
    omega
  obtain ⟨htake, hdrop⟩ := hhead.takeWhile_dropWhile_append hstart
  rw [isGrouped, List.append_assoc, htake, hdrop, groupsThen_marked hgs, hleast,
    groupsThen_fractionText hmark hfraction]
  simp [hlen, Nat.one_le_iff_ne_zero, hne]

/-- A number in groups behind points or commas is read as the number that was shown. -/
theorem plainNumber_marked (hl : l ∈ Locale.catalog) (hblank : Text.isBlank l.groupSeparator = false)
    (hhead : Digits head) (hne : head ≠ []) (hlen : head.length ≤ 3) (hgs : Digits (joined gs))
    (hnegs : gs ≠ []) (hfraction : Digits fraction) :
    plainNumber l (head ++ marked l.groupSeparator gs ++ fractionText l.decimalSeparator fraction) =
      head ++ joined gs ++ fractionText '.' fraction := by
  have hfilter : ∀ {sep mark : Char}, sep.isDigit = false → sep ≠ mark →
      (head ++ marked sep gs ++ fractionText mark fraction).filter (· != sep) =
        head ++ joined gs ++ fractionText mark fraction := fun hsep hmark =>
    filter_marked (hhead.not_mem hsep) (hgs.not_mem hsep) (not_mem_fractionText hfraction hsep hmark)
  unfold plainNumber
  dsimp only
  rcases separators_of_mem hl with ⟨hmark, hsep⟩ | ⟨hmark, hsep | hsep⟩
  · have hgrouped : isGrouped ',' '.' (head ++ marked ',' gs ++ fractionText '.' fraction) = true :=
      isGrouped_marked rfl (by decide) hhead hne hlen hgs hnegs hfraction
    rw [hmark, hsep, if_pos rfl, if_pos hgrouped, hfilter rfl (by decide)]
  · have hgrouped : isGrouped '.' ',' (head ++ marked '.' gs ++ fractionText ',' fraction) = true :=
      isGrouped_marked rfl (by decide) hhead hne hlen hgs hnegs hfraction
    rw [hmark, hsep, if_neg (by decide), if_pos ⟨rfl, hgrouped⟩, hfilter rfl (by decide)]
    exact map_fractionText (Digits.append_iff.2 ⟨hhead, hgs⟩) hfraction
  · rw [hsep] at hblank
    exact nomatch hblank

end

end Reckoner.Spelling

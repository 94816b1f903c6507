import Reckoner.Proofs.Formula.Rendering
import Reckoner.Proofs.Sweeping

/-!
# The normal form of a formula's text

Leaving out blanks between pieces keeps the text a spacing of the same pieces (`Spaced.thins`). Pieces
in which operands and operators alternate start no comment and put no two numbers in a row. So the
normal form of such a text, in every locale, is the same pieces with other blanks (`Spaced.normalize`).
-/

namespace Reckoner.Formula

open Text (isBlank Thins)
open Spelling (Plain Apart plainChars)

theorem cons_suffix_append {c : Char} {rest xs ys : List Char} (h : c :: rest <:+ xs ++ ys) :
    c :: rest <:+ ys ∨ ∃ t, c :: t <:+ xs ∧ rest = t ++ ys := by
  obtain ⟨front, heq⟩ := h
  rcases List.append_eq_append_iff.1 heq with ⟨mid, rfl, hmid⟩ | ⟨mid, rfl, rfl⟩
  · cases mid with
    | nil => exact .inl (hmid ▸ List.suffix_rfl)
    | cons x t =>
      obtain ⟨rfl, rfl⟩ := List.cons.inj hmid
      exact .inr ⟨t, List.suffix_append .., rfl⟩
  · exact .inl (List.suffix_append ..)

namespace Piece

theorem text_ne_nil (p : Piece) : p.text ≠ [] := by
  cases p with
  | numeral n => exact n.nonempty
  | _ => exact fun h => nomatch h

/-- A character of a piece is a digit of a numeral, or the piece is a sign or a parenthesis. -/
theorem mem_text {p : Piece} {c : Char} (h : c ∈ p.text) :
    c.isDigit = true ∧ (∃ n, p = numeral n) ∨ c ∈ ['+', '-', '*', '/', '^', '(', ')'] := by
  cases p with
  | numeral n => exact .inl ⟨n.decimal c h, n, rfl⟩
  | _ =>
    refine .inr ?_
    simp only [text, List.mem_cons, List.not_mem_nil, or_false, or_self] at h
    subst h
    decide

theorem text_plain (p : Piece) : Plain p.text := by
  intro c hc
  rcases mem_text hc with ⟨hdigit, -⟩ | hsign
  · exact Spelling.mem_plainChars_of_isDigit hdigit
  · have hsigns : ∀ c ∈ ['+', '-', '*', '/', '^', '(', ')'], c ∈ plainChars :=
      List.all_iff_forall_prop.1 (by decide +kernel)
    exact hsigns c hsign

theorem not_isBlank {p : Piece} {c : Char} (h : c ∈ p.text) : isBlank c = false := by
  rcases mem_text h with ⟨hdigit, -⟩ | hsign
  · exact Spelling.not_isBlank_of_isDigit hdigit
  · have hsigns : ∀ c ∈ ['+', '-', '*', '/', '^', '(', ')'], isBlank c = false :=
      List.all_iff_forall_prop.1 rfl
    exact hsigns c hsign

theorem head_not_blank {p : Piece} {c : Char} {rest cs : List Char} (h : p.text ++ cs = c :: rest) :
    isBlank c = false := by
  cases hp : p.text with
  | nil => exact absurd hp p.text_ne_nil
  | cons x t =>
    rw [hp] at h
    obtain ⟨rfl, -⟩ := List.cons.inj h
    exact not_isBlank (hp ▸ List.mem_cons_self ..)

theorem eq_numeral {p : Piece} {c : Char} (h : c ∈ p.text) (hc : c.isDigit = true) :
    ∃ n, p = numeral n := by
  rcases mem_text h with ⟨-, hn⟩ | hsign
  · exact hn
  · have hsigns : ∀ c ∈ ['+', '-', '*', '/', '^', '(', ')'], c.isDigit = false :=
      List.all_iff_forall_prop.1 rfl
    exact nomatch hc.symm.trans (hsigns c hsign)

theorem eq_divide {p : Piece} (h : '/' ∈ p.text) : p = divide := by
  cases p with
  | numeral n => exact nomatch n.decimal '/' h
  | divide => rfl
  | _ => simp [text] at h

theorem eq_times_or_stars {p : Piece} (h : '*' ∈ p.text) : p = times ∨ p = stars := by
  cases p with
  | numeral n => exact nomatch n.decimal '*' h
  | times => exact .inl rfl
  | stars => exact .inr rfl
  | _ => simp [text] at h

/-- Pieces that cannot stand side by side do not in a text of operands and operators. -/
theorem steps_side_by_side {p q : Piece} (h : ∀ e, (step e p).bind (step · q) = none)
    (before after : List Piece) (e : Bool) : steps e (before ++ p :: q :: after) = none := by
  rw [steps_append]
  cases steps e before with
  | none => rfl
  | some e =>
    show (step e p).bind (fun e => (step e q).bind (steps · after)) = none
    rw [← Option.bind_assoc, h e]
    rfl

end Piece

namespace Spaced
variable {ps : List Piece} {cs ds : List Char}

theorem thins (h : Spaced ps cs) (hthins : Thins cs ds) : Spaced ps ds := by
  induction h generalizing ds with
  | nil hblanks => exact .nil fun c hc => hblanks c (hthins.subset hc)
  | @cons blanks p ps cs hblanks _ ih =>
    obtain ⟨bs, ds, rfl, hbs, hds⟩ := hthins.split
    obtain ⟨ts, ds, rfl, hts, hds⟩ := hds.split
    rw [hts.eq_of_no_blank fun c hc => Piece.not_isBlank hc]
    exact .cons (fun c hc => hblanks c (hbs.subset hc)) (ih hds)

theorem plain (h : Spaced ps cs) : Plain cs := by
  induction h with
  | nil hblanks => exact fun c hc => Spelling.mem_plainChars_of_isBlank (hblanks c hc)
  | @cons blanks p ps cs hblanks _ ih =>
    intro c hc
    rcases List.mem_append.1 hc with hc | hc
    · exact Spelling.mem_plainChars_of_isBlank (hblanks c hc)
    · rcases List.mem_append.1 hc with hc | hc
      · exact p.text_plain c hc
      · exact ih c hc

/-- Where a text starts without a blank, a piece starts. -/
theorem uncons {c : Char} (h : Spaced ps (c :: cs)) (hc : isBlank c = false) :
    ∃ p after t ds, ps = p :: after ∧ p.text = c :: t ∧ cs = t ++ ds ∧ Spaced after ds := by
  generalize htext : c :: cs = whole at h
  cases h with
  | nil hblanks =>
    subst htext
    exact nomatch hc.symm.trans (hblanks c (List.mem_cons_self ..))
  | @cons blanks p after ds hblanks hafter =>
    cases blanks with
    | cons b blanks =>
      obtain ⟨rfl, -⟩ := List.cons.inj htext
      exact nomatch hc.symm.trans (hblanks c (List.mem_cons_self ..))
    | nil =>
      cases hp : p.text with
      | nil => exact absurd hp p.text_ne_nil
      | cons x t =>
        rw [hp] at htext
        obtain ⟨rfl, rfl⟩ := List.cons.inj htext
        exact ⟨p, after, t, ds, rfl, hp, rfl, hafter⟩

/-- A character in a text belongs to a piece or is a blank. -/
theorem suffix {c : Char} {rest : List Char} (h : Spaced ps cs) (hsuffix : c :: rest <:+ cs)
    (hc : isBlank c = false) : ∃ before p after t ds, ps = before ++ p :: after ∧
      c :: t <:+ p.text ∧ rest = t ++ ds ∧ Spaced after ds := by
  induction h with
  | nil hblanks =>
    exact nomatch hc.symm.trans (hblanks c (hsuffix.subset (List.mem_cons_self ..)))
  | @cons blanks p ps cs hblanks hps ih =>
    rcases cons_suffix_append hsuffix with hsuffix | ⟨t, ht, -⟩
    · rcases cons_suffix_append hsuffix with hsuffix | ⟨t, ht, rfl⟩
      · obtain ⟨before, q, after, t, ds, rfl, hrest⟩ := ih hsuffix
        exact ⟨p :: before, q, after, t, ds, rfl, hrest⟩
      · exact ⟨[], p, ps, t, cs, rfl, ht, rfl, hps⟩
    · exact nomatch hc.symm.trans (hblanks c (ht.subset (List.mem_cons_self ..)))

/-- Slashes in a row would be two pieces. -/
theorem no_slashes (h : Spaced ps cs) (hsteps : Piece.steps false ps = some true) :
    ¬ ['/', '/'] <:+: cs := by
  rintro ⟨front, rest, rfl⟩
  rw [List.append_assoc] at h
  obtain ⟨before, p, after, t, ds, rfl, hp, htext, hafter⟩ :=
    h.suffix (List.suffix_append ..) (rfl : isBlank '/' = false)
  obtain rfl := Piece.eq_divide (hp.subset (List.mem_cons_self ..))
  obtain rfl : t = [] := by
    have hlen := hp.length_le
    exact List.length_eq_zero_iff.1 (Nat.le_zero.1 (Nat.le_of_succ_le_succ hlen))
  rw [List.nil_append] at htext
  rw [← htext] at hafter
  obtain ⟨q, after, t, ds, rfl, hq, -, -⟩ := hafter.uncons rfl
  obtain rfl := Piece.eq_divide (hq ▸ List.mem_cons_self ..)
  have hnone : Piece.steps false (before ++ .divide :: .divide :: after) = none :=
    Piece.steps_side_by_side (by decide) before after false
  exact nomatch hnone.symm.trans hsteps

/-- Behind a numeral does not come another one. -/
theorem not_isDigit {before after : List Piece} {n : Numeral} {c : Char} {rest : List Char} {e : Bool}
    (h : Spaced after (c :: rest))
    (hsteps : Piece.steps e (before ++ .numeral n :: after) = some true) : c.isDigit = false := by
  by_contra hc
  rw [Bool.not_eq_false] at hc
  obtain ⟨q, after, t, ds, rfl, hq, -, -⟩ := h.uncons (Spelling.not_isBlank_of_isDigit hc)
  obtain ⟨m, rfl⟩ := Piece.eq_numeral (hq ▸ List.mem_cons_self ..) hc
  have hnone : Piece.steps e (before ++ .numeral n :: .numeral m :: after) = none :=
    Piece.steps_side_by_side (fun e => by cases e <;> rfl) before after e
  exact nomatch hnone.symm.trans hsteps

theorem apart (h : Spaced ps cs) (hsteps : Piece.steps false ps = some true) : Apart cs := by
  intro a b c rest hsuffix ha hb
  obtain ⟨before, p, after, t, ds, rfl, hp, htext, hafter⟩ :=
    h.suffix hsuffix (Spelling.not_isBlank_of_isDigit ha)
  obtain ⟨n, rfl⟩ := Piece.eq_numeral (hp.subset (List.mem_cons_self ..)) ha
  cases t with
  | cons x t =>
    -- a blank cannot be a digit of the numeral
    obtain ⟨rfl, -⟩ := List.cons.inj htext
    have hmem : b ∈ n.digits := hp.subset (by simp)
    exact nomatch hb.symm.trans (Spelling.not_isBlank_of_isDigit (n.decimal b hmem))
  | nil =>
    rw [List.nil_append] at htext
    rw [← htext] at hafter
    exact (hafter.thins (.drop hb (.refl _))).not_isDigit hsteps

/-- The normal form of the text is the same pieces again. -/
theorem normalize (l : Locale) (h : Spaced ps cs) (hsteps : Piece.steps false ps = some true) :
    Spaced ps (Spelling.normalize l cs) :=
  h.thins <| Spelling.thins_normalize l h.plain (h.no_slashes hsteps) fun _ hds =>
    (h.thins hds).apart hsteps

end Spaced

end Reckoner.Formula

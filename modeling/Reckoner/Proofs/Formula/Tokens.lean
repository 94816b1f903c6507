import Mathlib.Data.List.Basic
import Reckoner.Proofs.Formula.Spacing
import Reckoner.Token.Scan

/-!
# The tokens of a formula's text

A text that spaces out pieces in which operands and operators alternate is cut into the tokens of
these pieces (`Spaced.significant`). The scanner takes as much as it can: it does not run on into the
next piece, because behind digits comes no digit and behind `*` no other `*`.
-/

namespace Reckoner

namespace Token

open Spelling (Plain plainChars)

/-- Wherever the text starts, it is cut into these tokens and blanks. -/
def CutsInto (cs : List Char) (ts : List Token) : Prop :=
  ∀ start column done, ∃ ls, tokensFrom cs start column done = .ok (done.reverse ++ ls) ∧
    (ls.map (·.token)).filter (fun t => !t.isBlank) = ts

namespace CutsInto
variable {cs : List Char} {ts : List Token} {s : Scanned}

theorem nil : CutsInto [] [] := by
  intro start column done
  refine ⟨[], ?_, rfl⟩
  unfold tokensFrom
  rw [List.append_nil]

theorem of_scan? (hs : scan? cs = some s) (h : CutsInto s.rest ts) :
    CutsInto cs (if s.token.isBlank then ts else s.token :: ts) := by
  intro start column done
  cases cs with
  | nil =>
    obtain ⟨hnil, -⟩ := List.append_eq_nil_iff.1 (scan?_append hs)
    exact absurd hnil (scan?_text_ne_nil hs)
  | cons c cs =>
    let first : Lexeme := ⟨s.token, start, start + byteLength s.text, column⟩
    obtain ⟨ls, hls, hts⟩ := h (start + byteLength s.text) (column + s.text.length) (first :: done)
    refine ⟨first :: ls, ?_, ?_⟩
    · unfold tokensFrom
      split
      · next hs' =>
        rw [hs] at hs'
        cases hs'
        rw [hls, List.reverse_cons, List.append_assoc, List.singleton_append]
      · next hs' => cases hs.symm.trans hs'
    · rw [List.map_cons, List.filter_cons, hts]
      cases s.token.isBlank <;> rfl

/-- Blanks are one token, which is left out. -/
theorem blanks {bs : List Char} (hbs : ∀ c ∈ bs, Text.isBlank c = true)
    (hcs : ∀ c rest, cs = c :: rest → Text.isBlank c = false) (h : CutsInto cs ts) :
    CutsInto (bs ++ cs) ts := by
  obtain ⟨htake, hdrop⟩ := Spelling.takeWhile_dropWhile_append hbs hcs
  by_cases hnil : bs = []
  · rw [hnil]
    exact h
  · have hs : scan? (bs ++ cs) = some ⟨.blank (String.ofList bs), bs, cs⟩ := by
      rw [scan?, scanBlank, htake, hdrop, if_neg hnil]
      rfl
    exact of_scan? hs h

theorem significant (h : CutsInto cs ts) : Token.significant cs = .ok ts := by
  obtain ⟨ls, hls, hts⟩ := h 0 1 []
  rw [Token.significant, tokens, hls]
  exact congrArg Except.ok hts

end CutsInto

/-! ### Scanning plain texts -/

theorem scanOperator_times {cs : List Char} (h : ∀ rest, cs ≠ '*' :: rest) :
    scanOperator ('*' :: cs) = some ⟨.operator .times, ['*'], cs⟩ := by
  unfold scanOperator
  split
  · next heq => exact absurd (List.cons.inj heq).2 (h _)
  all_goals simp_all

section
variable {cs : List Char} (h : Plain cs)
include h

theorem scanRadix_plain {marker : Char} (hmarker : ∀ c ∈ plainChars, c.toLower ≠ marker) (base : Nat)
    (isDigit : Char → Bool) : scanRadix marker base isDigit cs = none := by
  unfold scanRadix
  split
  · next m cs =>
    have hm : m ∈ plainChars := h m (by simp)
    exact if_neg fun hif => hmarker m hm hif.1
  · rfl

theorem scanFraction_plain : scanFraction cs = ([], cs) := by
  unfold scanFraction
  split
  · exact absurd (List.mem_cons_self ..) (h.not_mem (c := '.') (by decide))
  · rfl

theorem scanExponent_plain : scanExponent cs = ([], 0, cs) := by
  unfold scanExponent
  split
  · next c cs =>
    have hletters : ∀ x ∈ plainChars, ¬ (x = 'e' ∨ x = 'E') :=
      List.all_iff_forall_prop.1 (by decide +kernel)
    exact if_neg fun hif => hletters c h.head hif.1
  · rfl

/-- A decimal number in a plain text is its digits only. -/
theorem scanDecimal_plain : scanDecimal cs =
    if cs.takeWhile Char.isDigit = [] then none
    else some ⟨.number (Decimal.ofParts false (cs.takeWhile Char.isDigit) [] 0),
      cs.takeWhile Char.isDigit, cs.dropWhile Char.isDigit⟩ := by
  have hrest := h.suffix (List.dropWhile_suffix Char.isDigit)
  unfold scanDecimal
  dsimp only
  rw [scanFraction_plain hrest, scanExponent_plain hrest]
  simp

/-- In a plain text no number is in another base. -/
theorem scan?_plain (hblank : ∀ c rest, cs = c :: rest → Text.isBlank c = false) :
    scan? cs = (scanDecimal cs <|> scanOperator cs <|> scanParen cs <|> scanWord cs) := by
  have hnone : scanBlank cs = none := by
    rw [scanBlank]
    cases cs with
    | nil => rfl
    | cons c cs =>
      rw [List.takeWhile_cons, hblank c cs rfl]
      rfl
  rw [scan?, hnone, scanRadix_plain h (List.all_iff_forall_prop.1 (by decide +kernel)),
    scanRadix_plain h (List.all_iff_forall_prop.1 (by decide +kernel)),
    scanRadix_plain h (List.all_iff_forall_prop.1 (by decide +kernel))]
  rfl

end

end Token

namespace Formula

open Spelling (Plain)

namespace Piece

/-- The token of a piece. -/
def token : Piece → Token
  | numeral n => .number (Double.ofNat n.value)
  | plus => .operator .plus
  | minus => .operator .minus
  | times => .operator .times
  | divide => .operator .divide
  | caret | stars => .operator .power
  | openParen => .openParen
  | closeParen => .closeParen

theorem token_not_blank (p : Piece) : p.token.isBlank = false := by cases p <;> rfl

end Piece

theorem Numeral.ofParts_digits (n : Numeral) :
    Decimal.ofParts false n.digits [] 0 = Double.ofNat n.value := by
  have hvalue : Decimal.ofDigits 10 n.digits = n.value := by
    rw [Decimal.ofDigits_eq_foldl, Numeral.value]
    refine List.foldl_ext _ _ _ fun v c hc => ?_
    rw [Decimal.digitValue, n.decimal c hc]
    rfl
  rw [Decimal.ofParts, List.append_nil, hvalue, Decimal.toDouble]
  split
  · next hzero => rw [hzero]; rfl
  · show Double.nearest false (n.value * 1) 1 = _
    rw [Nat.mul_one]
    rfl

/-- The scanner takes a piece as its token, if it does not run on into what follows. -/
theorem Piece.scan? (p : Piece) {cs : List Char} (h : Plain cs)
    (hnumeral : ∀ n, p = numeral n → ∀ c rest, cs = c :: rest → c.isDigit = false)
    (htimes : p = times → ∀ rest, cs ≠ '*' :: rest) :
    Token.scan? (p.text ++ cs) = some ⟨p.token, p.text, cs⟩ := by
  have hplain : Plain (p.text ++ cs) := fun c hc =>
    (List.mem_append.1 hc).elim (p.text_plain c) (h c)
  rw [Token.scan?_plain hplain fun _ _ => Piece.head_not_blank, Token.scanDecimal_plain hplain]
  cases p with
  | numeral n =>
    obtain ⟨htake, hdrop⟩ := Spelling.takeWhile_dropWhile_append n.decimal (hnumeral n rfl)
    rw [show (numeral n).text = n.digits from rfl, htake, hdrop, if_neg n.nonempty, n.ofParts_digits]
    rfl
  | times =>
    show (Token.scanOperator ('*' :: cs) <|> _) = _
    rw [Token.scanOperator_times (htimes rfl)]
    rfl
  | _ => rfl

theorem Spaced.cutsInto {ps : List Piece} {cs : List Char} (h : Spaced ps cs) {e : Bool}
    (hsteps : Piece.steps e ps = some true) : Token.CutsInto cs (ps.map Piece.token) := by
  induction h generalizing e with
  | @nil bs hbs =>
    have hend : ∀ c rest, ([] : List Char) = c :: rest → Text.isBlank c = false := nofun
    have hcuts := Token.CutsInto.nil.blanks hbs hend
    rwa [List.append_nil] at hcuts
  | @cons bs p ps cs hbs hps ih =>
    obtain ⟨e', -, hbehind⟩ := Option.bind_eq_some_iff.1 hsteps
    have hnumeral : ∀ n, p = .numeral n → ∀ c rest, cs = c :: rest → c.isDigit = false := by
      rintro n rfl c rest rfl
      have hsteps : Piece.steps e ([] ++ .numeral n :: ps) = some true := hsteps
      exact hps.not_isDigit hsteps
    have htimes : p = .times → ∀ rest, cs ≠ '*' :: rest := by
      rintro rfl rest rfl
      obtain ⟨q, after, t, ds, rfl, hq, -, -⟩ := hps.uncons rfl
      have hnone : Piece.steps e (.times :: q :: after) = none := by
        refine Piece.steps_side_by_side (fun e => ?_) [] after e
        rcases Piece.eq_times_or_stars (hq ▸ List.mem_cons_self ..) with rfl | rfl <;> cases e <;> rfl
      exact nomatch hnone.symm.trans hsteps
    have hcuts := (ih hbehind).of_scan? (p.scan? hps.plain hnumeral htimes)
    rw [p.token_not_blank] at hcuts
    exact hcuts.blanks hbs fun _ _ => Piece.head_not_blank

theorem Spaced.significant {ps : List Piece} {cs : List Char} (h : Spaced ps cs)
    (hsteps : Piece.steps false ps = some true) :
    Token.significant cs = .ok (ps.map Piece.token) := (h.cutsInto hsteps).significant

end Formula

end Reckoner

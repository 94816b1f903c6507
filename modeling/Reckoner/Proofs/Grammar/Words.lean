import Reckoner.Proofs.Grammar.Derivation
import Reckoner.Proofs.Parsing

/-!
# Which tokens the parser takes

Each test of a single token in terms of the grammar's vocabulary, and each parser of a single token
as a step over one terminal. A sign and the lookahead that tells its kind are one terminal
(`remainderOp_ok_iff`, `percentSign_ok_iff`).
-/

namespace Reckoner

open Reckoner.Parser

namespace Grammar
variable {t : Token} {c d : Cursor Token}

theorem number?_eq_some {x : Float} : number? t = some x ↔ t = .number x := by
  constructor
  · intro h; cases t <;> cases h; rfl
  · rintro rfl; rfl

theorem scaleWord?_eq_some {k : Float} :
    scaleWord? t = some k ↔ ∃ word, t = .identifier word ∧ scale? word = some k := by
  constructor
  · intro h; cases t with
    | identifier word => exact ⟨word, rfl, h⟩
    | _ => exact nomatch h
  · rintro ⟨word, rfl, h⟩; exact h

theorem unitWord?_eq_some {unit : String} : unitWord? t = some unit ↔ UnitWord t unit := by
  constructor
  · intro h
    match t with
    | .identifier word =>
      change (if _ then _ else _) = some unit at h
      split at h
      · next hf => cases h; exact .identifier (Option.isNone_iff_eq_none.1 hf)
      · exact nomatch h
    | .keyword .inWord => cases h; exact .inches
  · rintro (h | _)
    · exact if_pos (Option.isNone_iff_eq_none.2 h)
    · rfl

theorem UnitWord.word? {unit : String} (h : UnitWord t unit) : t.word? = some unit := by
  cases h <;> rfl

theorem function?_eq_some {f : Function} :
    function? t = some f ↔ ∃ name, t = .identifier name ∧ Function.ofText? name = some f := by
  constructor
  · intro h; cases t with
    | identifier name => exact ⟨name, rfl, h⟩
    | _ => exact nomatch h
  · rintro ⟨name, rfl, h⟩; exact h

theorem earlier?_eq_some {e : Expr} :
    earlier? t = some e ↔ ∃ k r, t = .keyword k ∧ Recall.ofKeyword? k = some r ∧ e = .earlier r := by
  constructor
  · intro h; cases t with
    | keyword k =>
      obtain ⟨r, hr, rfl⟩ := Option.map_eq_some_iff.1 h
      exact ⟨k, r, rfl, hr, rfl⟩
    | _ => exact nomatch h
  · rintro ⟨k, r, rfl, hr, rfl⟩; exact Option.map_eq_some_iff.2 ⟨r, hr, rfl⟩

theorem name?_eq_some {e : Expr} : name? t = some e ↔ ∃ n, t = .identifier n ∧ e = .name n := by
  constructor
  · intro h; cases t <;> cases h; exact ⟨_, rfl, rfl⟩
  · rintro ⟨n, rfl, rfl⟩; rfl

theorem sign?_eq_some {negative : Bool} :
    sign? t = some negative ↔ t = .operator (if negative then .minus else .plus) := by
  constructor
  · intro h
    match t with
    | .operator .minus => cases h; rfl
    | .operator .plus => cases h; rfl
  · rintro rfl; cases negative <;> rfl

theorem sum?_token : Terminal.sum? (.token t) = additiveOp? t := by
  cases t with
  | operator o => cases o <;> rfl
  | _ => rfl

theorem product?_token : Terminal.product? (.token t) = productOp? t := by
  cases t with
  | operator o => cases o <;> rfl
  | _ => rfl

theorem startsOperand_cons (ts : List Token) :
    startsOperand (t :: ts) = (operandStart? t).isSome := by
  cases t with
  | keyword k => cases k <;> rfl
  | _ => rfl

/-! ### Single terminals -/

theorem spans_singleton_iff {x : Terminal} : Spans c [x] d ↔
    ∃ t rest, c.rest = t :: rest ∧ Terminal.of t rest = x ∧ d = ⟨c.position + 1, rest⟩ := by
  constructor
  · intro h
    obtain ⟨t, rest, hc, hx, hd⟩ := h.uncons
    exact ⟨t, rest, hc, hx, hd.eq_of_nil⟩
  · rintro ⟨t, rest, hc, rfl, rfl⟩
    exact Spans.item hc

theorem spans_token_iff (ht : t ≠ .operator .percent) :
    Spans c [.token t] d ↔ ∃ rest, c.rest = t :: rest ∧ d = ⟨c.position + 1, rest⟩ := by
  constructor
  · intro h
    obtain ⟨rest, hc, hd⟩ := h.uncons_token
    exact ⟨rest, hc, hd.eq_of_nil⟩
  · rintro ⟨rest, hc, rfl⟩
    exact Spans.token hc ht

/-- A test that `%` fails takes a terminal that is a token. -/
theorem satisfy_spans_iff {α : Type} {f : Token → Option α} {x : α}
    (hf : f (.operator .percent) = none) :
    satisfy f c = .ok (x, d) ↔ ∃ t, f t = some x ∧ Spans c [.token t] d := by
  rw [satisfy_ok_iff]
  constructor
  · rintro ⟨t, rest, hc, hx, rfl⟩
    refine ⟨t, hx, Spans.token hc ?_⟩
    rintro rfl
    exact nomatch hf.symm.trans hx
  · rintro ⟨t, hx, h⟩
    obtain ⟨rest, hc, hd⟩ := h.uncons_token
    exact ⟨t, rest, hc, hx, hd.eq_of_nil⟩

theorem equal_spans_iff {y : Token} (ht : t ≠ .operator .percent) :
    equal t c = .ok (y, d) ↔ y = t ∧ Spans c [.token t] d := by
  rw [equal_ok_iff, spans_token_iff ht]
  constructor
  · rintro ⟨rest, hc, rfl, rfl⟩; exact ⟨rfl, rest, hc, rfl⟩
  · rintro ⟨rfl, rest, hc, rfl⟩; exact ⟨rest, hc, rfl, rfl⟩

theorem operandStart_ok_iff : (∃ r, satisfy operandStart? c = .ok r) ↔ startsOperand c.rest = true := by
  constructor
  · rintro ⟨⟨u, d⟩, h⟩
    obtain ⟨t, rest, hc, ht, _⟩ := satisfy_ok_iff.1 h
    rw [hc, startsOperand_cons, ht]
    rfl
  · intro h
    cases hc : c.rest with
    | nil => rw [hc] at h; exact nomatch h
    | cons t rest =>
      rw [hc, startsOperand_cons] at h
      obtain ⟨u, hu⟩ := Option.isSome_iff_exists.1 h
      exact ⟨_, satisfy_ok_iff.2 ⟨t, rest, hc, hu, rfl⟩⟩

theorem remainderOp_ok_iff {op : BinaryOp} :
    remainderOp c = .ok (op, d) ↔ op = .remainder ∧ Spans c [.remainder] d := by
  rw [remainderOp, map_ok_iff]
  simp only [terminated_ok_iff, equal_ok_iff, peek_ok_iff, operandStart_ok_iff]
  rw [spans_singleton_iff]
  constructor
  · rintro ⟨_, ⟨_, _, ⟨rest, hc, rfl, rfl⟩, rfl, hstart⟩, rfl⟩
    exact ⟨rfl, _, rest, hc, (Terminal.of_percent rest).trans (if_pos hstart), rfl⟩
  · rintro ⟨rfl, t, rest, hc, hof, rfl⟩
    obtain rfl : t = .operator .percent := by rw [← Terminal.origin_of t rest, hof]; rfl
    rw [Terminal.of_percent] at hof
    split at hof
    · next hstart => exact ⟨_, ⟨(), _, ⟨rest, hc, rfl, rfl⟩, rfl, hstart⟩, rfl⟩
    · exact nomatch hof

theorem percentSign_ok_iff {t : Token} :
    percentSign c = .ok (t, d) ↔ t = .operator .percent ∧ Spans c [.percent] d := by
  rw [percentSign, terminated_ok_iff]
  simp only [equal_ok_iff, absent_ok_iff]
  rw [spans_singleton_iff]
  constructor
  · rintro ⟨_, _, ⟨rest, hc, rfl, rfl⟩, rfl, hrefuses⟩
    have hstart : ¬ startsOperand rest = true := fun h =>
      let ⟨r, hr⟩ := operandStart_ok_iff.2 h; hrefuses r hr
    exact ⟨rfl, _, rest, hc, (Terminal.of_percent rest).trans (if_neg hstart), rfl⟩
  · rintro ⟨rfl, t, rest, hc, hof, rfl⟩
    obtain rfl : t = .operator .percent := by rw [← Terminal.origin_of t rest, hof]; rfl
    refine ⟨(), _, ⟨rest, hc, rfl, rfl⟩, rfl, fun r hr => ?_⟩
    have hstart : startsOperand rest = true := operandStart_ok_iff.1 ⟨r, hr⟩
    rw [Terminal.of_percent, if_pos hstart] at hof
    exact nomatch hof

theorem additiveOp_ok_iff {op : BinaryOp} :
    satisfy additiveOp? c = .ok (op, d) ↔ ∃ t, Terminal.sum? t = some op ∧ Spans c [t] d := by
  rw [satisfy_spans_iff rfl]
  constructor
  · rintro ⟨t, ht, h⟩; exact ⟨.token t, sum?_token.trans ht, h⟩
  · rintro ⟨t, ht, h⟩
    cases t with
    | token t => exact ⟨t, sum?_token.symm.trans ht, h⟩
    | remainder | percent => exact nomatch ht

theorem multiplicativeOp_ok_iff {op : BinaryOp} :
    multiplicativeOp c = .ok (op, d) ↔ ∃ t, Terminal.product? t = some op ∧ Spans c [t] d := by
  rw [multiplicativeOp, choice_cons_ok_iff, choice_cons_ok_iff, remainderOp_ok_iff,
    satisfy_spans_iff rfl]
  constructor
  · rintro (⟨t, ht, h⟩ | ⟨_, ⟨rfl, h⟩ | ⟨_, h⟩⟩)
    · exact ⟨.token t, product?_token.trans ht, h⟩
    · exact ⟨.remainder, rfl, h⟩
    · exact absurd h (choice_nil_refuses _)
  · rintro ⟨t, ht, h⟩
    cases t with
    | token t => exact .inl ⟨t, product?_token.symm.trans ht, h⟩
    | remainder =>
      refine .inr ⟨?_, .inl ⟨(Option.some.inj ht).symm, h⟩⟩
      obtain ⟨t, rest, hc, hof, _⟩ := h.uncons
      refine satisfy_refuses fun t' ht' => ?_
      obtain rfl : t = t' := by rw [hc] at ht'; exact Option.some.inj ht'
      obtain rfl : t = .operator .percent := by rw [← Terminal.origin_of t rest, hof]; rfl
      rfl
    | percent => exact nomatch ht

end Grammar

end Reckoner

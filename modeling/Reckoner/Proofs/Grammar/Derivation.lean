import Reckoner.Statement.Grammar

/-!
# Derivations of statements

The grammar as productions over terminals, apart from any parser. A terminal is a token, except that
`%` comes in two kinds: which one it is depends on the token behind it (`mark`). The remaining choices
are made by the productions themselves:

* a scale word right behind a number is its scale, so that a unit there is no scale word (`measured`);
* a `^` behind the base of `% of` belongs to that base: an operand that ends in such a base
  (`Ending.base`) is no base of a power itself (`raised`);
* a leading `word =` is the assignment, and a conversion word with a word behind it at the end is the
  conversion, provided that something is before them (`Assigns`, `Converts`).
-/

namespace Reckoner

namespace Grammar

/-- Whether the next token starts an operand. -/
def startsOperand : List Token → Bool
  | .number _ :: _ | .identifier _ :: _ | .openParen :: _ => true
  | .keyword k :: _ => k.isHistory
  | _ => false

/-- What phrases are made of. -/
inductive Terminal where
  | token (t : Token)
  /-- A `%` in front of an operand. -/
  | remainder
  /-- Any other `%`. -/
  | percent
deriving DecidableEq

namespace Terminal

/-- The terminal of a token in front of others. -/
def of (t : Token) (rest : List Token) : Terminal :=
  if t = .operator .percent then if startsOperand rest then .remainder else .percent else .token t

/-- The terminal of an operator sign. -/
abbrev sign (o : Operator) : Terminal := .token (.operator o)

/-- The sign of a sum or a difference. -/
def sum? : Terminal → Option BinaryOp
  | .token (.operator .plus) => some .add
  | .token (.operator .minus) => some .subtract
  | _ => none

/-- The sign of a product, a quotient or a remainder. -/
def product? : Terminal → Option BinaryOp
  | .token (.operator .times) => some .multiply
  | .token (.operator .divide) => some .divide
  | .remainder => some .remainder
  | _ => none

end Terminal

/-- The terminals of a list of tokens. -/
def mark : List Token → List Terminal
  | [] => []
  | t :: ts => .of t ts :: mark ts

/-- A word that can be the unit of a value: an identifier that names no function, or `in`. -/
inductive UnitWord : Token → String → Prop where
  | identifier {word : String} : Function.ofText? word = none → UnitWord (.identifier word) word
  | inches : UnitWord (.keyword .inWord) "in"

/-- How an operand ends. -/
inductive Ending where
  | plain
  /-- With the base of `% of`. -/
  | base

/-- The kinds of phrases. -/
inductive Category where
  | sum
  | product
  | power
  | signed (ending : Ending)
  | suffixed (ending : Ending)
  | primary

/-- The phrases of each kind with the expressions they stand for. -/
inductive Derives : Category → List Terminal → Expr → Prop where
  | summand {w e} : Derives .product w e → Derives .sum w e
  | sum {u v t op a b} : Derives .sum u a → Terminal.sum? t = some op → Derives .product v b →
      Derives .sum (u ++ t :: v) (.binary op a b)
  | factor {w e} : Derives .power w e → Derives .product w e
  | product {u v t op a b} : Derives .product u a → Terminal.product? t = some op →
      Derives .power v b → Derives .product (u ++ t :: v) (.binary op a b)
  | base {w e ending} : Derives (.signed ending) w e → Derives .power w e
  | raised {u v a b} : Derives (.signed .plain) u a → Derives .power v b →
      Derives .power (u ++ .sign .power :: v) (.binary .power a b)
  | unsigned {w e ending} : Derives (.suffixed ending) w e → Derives (.signed ending) w e
  | minus {w e ending} : Derives (.signed ending) w e →
      Derives (.signed ending) (.sign .minus :: w) (.negate e)
  | plus {w e ending} : Derives (.signed ending) w e →
      Derives (.signed ending) (.sign .plus :: w) e
  | unsuffixed {w e} : Derives .primary w e → Derives (.suffixed .plain) w e
  | percent {w e} : Derives .primary w e →
      Derives (.suffixed .plain) (w ++ [.percent]) (.percent e)
  | percentOf {u v a b} : Derives .primary u a → Derives .power v b →
      Derives (.suffixed .base) (u ++ .percent :: .token (.keyword .ofWord) :: v) (.percentOf a b)
  | number {x} : Derives .primary [.token (.number x)] (.number x)
  | scaled {x word k} : scale? word = some k →
      Derives .primary [.token (.number x), .token (.identifier word)] (.number (x * k))
  | measured {x t unit} : UnitWord t unit → scale? unit = none →
      Derives .primary [.token (.number x), .token t] (.quantity (.number x) unit)
  | scaledMeasured {x word k t unit} : scale? word = some k → UnitWord t unit →
      Derives .primary [.token (.number x), .token (.identifier word), .token t]
        (.quantity (.number (x * k)) unit)
  | call {name f w e} : Function.ofText? name = some f → Derives .sum w e →
      Derives .primary
        (.token (.identifier name) :: .token .openParen :: (w ++ [.token .closeParen])) (.call f e)
  | earlier {k r} : Recall.ofKeyword? k = some r →
      Derives .primary [.token (.keyword k)] (.earlier r)
  | group {w e} : Derives .sum w e →
      Derives .primary (.token .openParen :: (w ++ [.token .closeParen])) e
  | measuredGroup {w e t unit} : Derives .sum w e → UnitWord t unit →
      Derives .primary (.token .openParen :: (w ++ [.token .closeParen, .token t]))
        (.quantity e unit)
  | name {n} : Derives .primary [.token (.identifier n)] (.name n)

/-- A statement's tokens without a leading assignment, and the name that is assigned. -/
inductive Assigns : List Token → Option String → List Token → Prop where
  | bound {t name rest} : t.word? = some name →
      Assigns (t :: .operator .assign :: rest) (some name) rest
  | unbound {ts} : (∀ t rest, ts = t :: .operator .assign :: rest → t.word? = none) →
      Assigns ts none ts

/-- Tokens without a conversion at their end, and the unit that is converted to. -/
inductive Converts (l : Locale) : List Token → List Token → Option String → Prop where
  | bound {body t target unit} : body ≠ [] → Statement.isConversionToken l t = true →
      target.word? = some unit → Converts l (body ++ [t, target]) body (some unit)
  | unbound {ts} : (∀ body t target, ts = body ++ [t, target] → body ≠ [] →
      Statement.isConversionToken l t = true → target.word? = none) → Converts l ts ts none

/-- The tokens derive the statement. -/
def Writes (l : Locale) (ts : List Token) (s : Statement) : Prop :=
  ∃ rest body, Assigns ts s.assignment rest ∧ Converts l rest body s.conversion ∧
    Derives .sum (mark body) s.expression

/-! ### Marks -/

@[simp] theorem length_mark : ∀ ts : List Token, (mark ts).length = ts.length
  | [] => rfl
  | _ :: ts => congrArg (· + 1) (length_mark ts)

theorem mark_drop : ∀ (ts : List Token) (n : Nat), mark (ts.drop n) = (mark ts).drop n
  | _, 0 => rfl
  | [], _ + 1 => rfl
  | _ :: ts, n + 1 => mark_drop ts n

/-- A terminal tells its token. -/
def Terminal.origin : Terminal → Token
  | .token t => t
  | .remainder | .percent => .operator .percent

@[simp] theorem Terminal.origin_of (t : Token) (rest : List Token) : (of t rest).origin = t := by
  unfold of
  split
  · next h => split <;> exact h.symm
  · rfl

theorem map_origin_mark : ∀ ts : List Token, (mark ts).map Terminal.origin = ts
  | [] => rfl
  | t :: ts => by rw [mark, List.map_cons, map_origin_mark ts, Terminal.origin_of]

theorem mark_injective {ts us : List Token} (h : mark ts = mark us) : ts = us := by
  rw [← map_origin_mark ts, h, map_origin_mark]

theorem Terminal.of_percent (rest : List Token) :
    of (.operator .percent) rest = if startsOperand rest then .remainder else .percent := if_pos rfl

theorem Terminal.of_token {t : Token} (rest : List Token) (h : t ≠ .operator .percent) :
    of t rest = .token t := if_neg h

/-! ### What is between two cursors -/

/-- The tokens from the one cursor to the other have these terminals. -/
structure Spans (c : Cursor Token) (w : List Terminal) (d : Cursor Token) : Prop where
  marks : mark c.rest = w ++ mark d.rest
  position : d.position = c.position + w.length

namespace Spans
variable {c d e : Cursor Token} {u v w : List Terminal}

theorem trans (h : Spans c u d) (h' : Spans d v e) : Spans c (u ++ v) e := by
  refine ⟨?_, ?_⟩
  · rw [h.marks, h'.marks, List.append_assoc]
  · rw [h'.position, h.position, List.length_append, Nat.add_assoc]

theorem item {t : Token} {rest : List Token} (h : c.rest = t :: rest) :
    Spans c [.of t rest] ⟨c.position + 1, rest⟩ := ⟨by rw [h]; rfl, rfl⟩

theorem token {t : Token} {rest : List Token} (h : c.rest = t :: rest)
    (ht : t ≠ .operator .percent) : Spans c [.token t] ⟨c.position + 1, rest⟩ := by
  have hitem := item h
  rwa [Terminal.of_token rest ht] at hitem

theorem length (h : Spans c w d) : c.rest.length = w.length + d.rest.length := by
  rw [← length_mark, h.marks, List.length_append, length_mark]

theorem length_le (h : Spans c w d) : d.rest.length ≤ c.rest.length := by
  rw [h.length]
  exact Nat.le_add_left ..

theorem split (h : Spans c (u ++ v) e) : ∃ d, Spans c u d ∧ Spans d v e := by
  have hdrop : mark (c.rest.drop u.length) = v ++ mark e.rest := by
    rw [mark_drop, h.marks, List.append_assoc, List.drop_left]
  refine ⟨⟨c.position + u.length, c.rest.drop u.length⟩, ⟨?_, rfl⟩, ⟨hdrop, ?_⟩⟩
  · rw [hdrop, h.marks, List.append_assoc]
  · rw [h.position, List.length_append, Nat.add_assoc]

theorem eq_of_nil (h : Spans c [] d) : d = c := by
  obtain ⟨p, ts⟩ := c
  obtain ⟨q, us⟩ := d
  obtain rfl : us = ts := mark_injective h.marks.symm
  obtain rfl : q = p := h.position
  rfl

theorem unique (h : Spans c u d) (h' : Spans c v e) (hlen : u.length = v.length) : d = e := by
  obtain ⟨p, ts⟩ := d
  obtain ⟨q, us⟩ := e
  obtain ⟨-, hm⟩ := List.append_inj (h.marks.symm.trans h'.marks) hlen
  obtain rfl : ts = us := mark_injective hm
  obtain rfl : p = q := by
    have hp := h.position
    have hq := h'.position
    dsimp only at hp hq
    omega
  rfl

/-- The first terminal comes from the token at the cursor. -/
theorem uncons {x : Terminal} (h : Spans c (x :: w) d) :
    ∃ t rest, c.rest = t :: rest ∧ Terminal.of t rest = x ∧ Spans ⟨c.position + 1, rest⟩ w d := by
  have hm := h.marks
  cases hc : c.rest with
  | nil => rw [hc] at hm; exact nomatch hm
  | cons t rest =>
    rw [hc] at hm
    obtain ⟨hx, hw⟩ := List.cons.inj hm
    refine ⟨t, rest, rfl, hx, hw, ?_⟩
    rw [h.position, List.length_cons]
    show _ = c.position + 1 + w.length
    omega

theorem uncons_token {t : Token} (h : Spans c (.token t :: w) d) :
    ∃ rest, c.rest = t :: rest ∧ Spans ⟨c.position + 1, rest⟩ w d := by
  obtain ⟨t', rest, hc, hx, hw⟩ := h.uncons
  have ht : t' = t := by rw [← Terminal.origin_of t' rest, hx]; rfl
  exact ⟨rest, ht ▸ hc, hw⟩

end Spans

end Grammar

end Reckoner

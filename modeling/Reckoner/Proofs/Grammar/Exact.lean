import Reckoner.Proofs.Grammar.Complete

/-!
# The parser accepts exactly the grammar

`Statement.parse_ok_iff`: tokens are parsed to a statement if and only if they derive it. As
the parser is a function, tokens derive at most one statement, and how signs associate can be read
off the productions: whatever derivation there is, it is the only one.
-/

namespace Reckoner

namespace Grammar

theorem splitAssignment_eq_iff {ts rest : List Token} {name : Option String} :
    Statement.splitAssignment ts = (name, rest) ↔ Assigns ts name rest := by
  unfold Statement.splitAssignment
  constructor
  · intro h
    split at h
    · next t rest' =>
      cases hw : t.word? with
      | none =>
        rw [hw] at h
        cases h
        refine .unbound fun t' rest h => ?_
        cases h
        exact hw
      | some word =>
        rw [hw] at h
        cases h
        exact .bound hw
    · next hno =>
      cases h
      exact .unbound fun t rest h => absurd h (hno t rest)
  · intro h
    cases h with
    | bound hw => simp only [hw]
    | unbound hno =>
      split
      · next t rest => rw [hno t rest rfl]
      · rfl

theorem splitConversion_append (l : Locale) (body : List Token) (t target : Token) :
    Statement.splitConversion l (body ++ [t, target]) =
      if body ≠ [] ∧ Statement.isConversionToken l t then
        match target.word? with
        | some unit => (body, some unit)
        | none => (body ++ [t, target], none)
      else (body ++ [t, target], none) := by
  have hrev : (body ++ [t, target]).reverse = target :: t :: body.reverse := by simp
  have hne : body.reverse ≠ [] ↔ body ≠ [] := not_congr List.reverse_eq_nil_iff
  rw [Statement.splitConversion, hrev]
  dsimp only
  rw [List.reverse_reverse]
  exact if_congr (and_congr_left' hne) rfl rfl

theorem splitConversion_short {l : Locale} {ts : List Token}
    (h : ∀ body t target, ts ≠ body ++ [t, target]) : Statement.splitConversion l ts = (ts, none) := by
  unfold Statement.splitConversion
  split
  · next target word head hrev =>
    refine absurd ?_ (h head.reverse word target)
    rw [← List.reverse_reverse ts, hrev]
    simp
  · rfl

theorem splitConversion_eq_iff {l : Locale} {ts body : List Token} {unit : Option String} :
    Statement.splitConversion l ts = (body, unit) ↔ Converts l ts body unit := by
  constructor
  · intro h
    by_cases hts : ∃ body t target, ts = body ++ [t, target]
    · obtain ⟨head, t, target, rfl⟩ := hts
      rw [splitConversion_append] at h
      split at h
      · next hconv =>
        cases hw : target.word? with
        | some unit => rw [hw] at h; cases h; exact .bound hconv.1 hconv.2 hw
        | none =>
          rw [hw] at h
          cases h
          refine .unbound fun body' t' target' heq _ _ => ?_
          obtain ⟨-, htail⟩ := List.append_inj' heq rfl
          cases htail
          exact hw
      · next hconv =>
        cases h
        refine .unbound fun body' t' target' heq hbody ht => absurd ?_ hconv
        obtain ⟨rfl, htail⟩ := List.append_inj' heq rfl
        cases htail
        exact ⟨hbody, ht⟩
    · have hno : ∀ body t target, ts ≠ body ++ [t, target] :=
        fun body t target heq => hts ⟨body, t, target, heq⟩
      rw [splitConversion_short hno] at h
      cases h
      exact .unbound fun body t target heq => absurd heq (hno body t target)
  · intro h
    cases h with
    | bound hbody ht hw => rw [splitConversion_append, if_pos ⟨hbody, ht⟩, hw]
    | unbound hno =>
      by_cases hts : ∃ body t target, ts = body ++ [t, target]
      · obtain ⟨head, t, target, rfl⟩ := hts
        rw [splitConversion_append]
        split
        · next hconv => rw [hno head t target rfl hconv.1 hconv.2]
        · rfl
      · exact splitConversion_short fun body t target heq => hts ⟨body, t, target, heq⟩

/-- Tokens derive one expression at most. -/
theorem Derives.unique {ts : List Token} {e e' : Expr} (h : Derives .sum (mark ts) e)
    (h' : Derives .sum (mark ts) e') : e = e' := by
  have heq := (expression_complete h).symm.trans (expression_complete h')
  cases heq
  rfl

/-- Of two signs in a row the left one is applied first. -/
def LeftAssociative (sign? : Terminal → Option BinaryOp) (k j : Category) : Prop :=
  ∀ {ts u v w t t' o o' a b c e}, mark ts = (u ++ t :: v) ++ t' :: w →
    Derives k u a → sign? t = some o → Derives j v b → sign? t' = some o' → Derives j w c →
    Derives .sum (mark ts) e → e = .binary o' (.binary o a b) c

end Grammar

namespace Statement
open Grammar
variable {l : Locale} {ts : List Token} {s : Statement}

theorem parse_eq {name unit : Option String} {rest body : List Token}
    (hassign : splitAssignment ts = (name, rest)) (hconvert : splitConversion l rest = (body, unit)) :
    parse l ts =
      match Grammar.expression body with
      | .error e => .error (e.shift (if name.isSome then 2 else 0))
      | .ok (expression, c) =>
        match c.rest with
        | [] => .ok ⟨name, expression, unit⟩
        | t :: _ => .error (.unexpected t.text (c.position + if name.isSome then 2 else 0)) := by
  rewrite [parse, hassign]
  dsimp only
  rewrite [hconvert]
  rfl

theorem parse_ok_iff : parse l ts = .ok s ↔ Writes l ts s := by
  constructor
  · intro h
    cases hassign : splitAssignment ts with
    | mk name rest =>
      cases hconvert : splitConversion l rest with
      | mk body unit =>
        rw [parse_eq hassign hconvert] at h
        split at h
        · exact nomatch h
        · next e c hexpr =>
          split at h
          · next hrest =>
            cases h
            exact ⟨rest, body, splitAssignment_eq_iff.1 hassign, splitConversion_eq_iff.1 hconvert,
              expression_sound hexpr hrest⟩
          · exact nomatch h
  · rintro ⟨rest, body, hassign, hconvert, hder⟩
    rw [parse_eq (splitAssignment_eq_iff.2 hassign) (splitConversion_eq_iff.2 hconvert),
      expression_complete hder]

/-- Tokens are parsed to the statement that they derive, and they derive one at most. In its body,
sums and products associate to the left, powers to the right, and signs bind tighter than `^`. -/
theorem parse_exact (l : Locale) :
    (∀ ts s, parse l ts = .ok s ↔ Writes l ts s) ∧
      (∀ ts s s', Writes l ts s → Writes l ts s' → s = s') ∧
      LeftAssociative Terminal.sum? .sum .product ∧
      LeftAssociative Terminal.product? .product .power ∧
      (∀ {ts u v w a b c e}, mark ts = u ++ .sign .power :: (v ++ .sign .power :: w) →
        Derives (.signed .plain) u a → Derives (.signed .plain) v b → Derives .power w c →
        Derives .sum (mark ts) e → e = .binary .power a (.binary .power b c)) ∧
      (∀ {ts u v a b e}, mark ts = .sign .minus :: (u ++ .sign .power :: v) →
        Derives (.signed .plain) u a → Derives .power v b →
        Derives .sum (mark ts) e → e = .binary .power (.negate a) b) := by
  refine ⟨fun ts s => parse_ok_iff, fun ts s s' h h' => ?_, ?_, ?_, ?_, ?_⟩
  · have heq := (parse_ok_iff.2 h).symm.trans (parse_ok_iff.2 h')
    cases heq
    rfl
  · intro ts u v w t t' o o' a b c e hm ha ht hb ht' hc he
    exact he.unique (hm ▸ .sum (.sum ha ht hb) ht' hc)
  · intro ts u v w t t' o o' a b c e hm ha ht hb ht' hc he
    exact he.unique (hm ▸ .summand (.product (.product ha ht hb) ht' hc))
  · intro ts u v w a b c e hm ha hb hc he
    exact he.unique (hm ▸ .summand (.factor (.raised ha (.raised hb hc))))
  · intro ts u v a b e hm ha hb he
    exact he.unique (hm ▸ .summand (.factor (.raised (.minus ha) hb)))

end Statement

end Reckoner

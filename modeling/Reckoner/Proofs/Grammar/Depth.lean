import Reckoner.Input
import Reckoner.Proofs.Grammar.Exact

/-!
# How deep expressions are

The check in front of the parser counts operators and open parentheses. Every node of an expression is
paid for by a token of its own: a sign or an operator by that sign, a call or a quantity in parentheses
by the parentheses, so that only a number and the word behind it are free (`Derives.pays`). What passes
the check and is parsed is thus no deeper than the two bounds and two nodes more
(`Statement.depth_le_of_parse`), and there are statements as deep as that.
-/

namespace Reckoner

/-- How many nodes the longest path down an expression has. -/
def Expr.depth : Expr → Nat
  | .number _ | .name _ | .earlier _ => 1
  | .quantity e _ | .negate e | .percent e | .call _ e => e.depth + 1
  | .binary _ left right => max left.depth right.depth + 1
  | .percentOf part base => max part.depth base.depth + 1

/-! ### Passing the check -/

section
variable {depth operators : Nat} {rest : List Token}

theorem checkNestingFrom_openParen
    (h : checkNestingFrom depth operators (.openParen :: rest) = .ok ()) :
    depth < greatestNesting ∧ checkNestingFrom (depth + 1) operators rest = .ok () := by
  rw [checkNestingFrom] at h
  split at h
  · next hlt => exact ⟨hlt, h⟩
  · exact nomatch h

theorem checkNestingFrom_operator {o : Operator} (ho : o ≠ .assign)
    (h : checkNestingFrom depth operators (.operator o :: rest) = .ok ()) :
    operators < greatestOperators ∧ checkNestingFrom depth (operators + 1) rest = .ok () := by
  have hstep : checkNestingFrom depth operators (.operator o :: rest) =
      if operators < greatestOperators then checkNestingFrom depth (operators + 1) rest
      else .error .manyOperators := by
    cases o with
    | assign => exact absurd rfl ho
    | _ => rfl
  rw [hstep] at h
  split at h
  · next hlt => exact ⟨hlt, h⟩
  · exact nomatch h

/-- Words and numbers are passed over. -/
theorem checkNestingFrom_operand {t : Token} (ht : t.word? ≠ none ∨ (Grammar.number? t).isSome = true) :
    checkNestingFrom depth operators (t :: rest) = checkNestingFrom depth operators rest := by
  cases t <;> first | rfl | simp [Token.word?, Grammar.number?] at ht

end

namespace Grammar
open Terminal (origin)

/-- The check goes on behind some tokens with `after` operators, where `operators` were passed before
them, and what it counted pays for `nodes` nodes under `depth` open parentheses. -/
structure Paid (nodes depth operators after : Nat) (rest : List Token) : Prop where
  check : checkNestingFrom depth after rest = .ok ()
  le : operators ≤ after
  bounded : after ≤ greatestOperators
  nodes : nodes + operators + depth ≤ after + greatestNesting + 2

/-- Wherever tokens with these terminals pass the check, as many nodes are paid for. -/
def Pays (w : List Terminal) (nodes : Nat) : Prop :=
  ∀ depth operators rest, depth ≤ greatestNesting → operators ≤ greatestOperators →
    checkNestingFrom depth operators (w.map origin ++ rest) = .ok () →
      ∃ after, Paid nodes depth operators after rest

namespace Pays
variable {u v w : List Terminal} {m n : Nat}

theorem mono (h : Pays w n) (hle : m ≤ n) : Pays w m := fun _ _ _ hdepth hoperators hcheck => by
  obtain ⟨after, hpaid⟩ := h _ _ _ hdepth hoperators hcheck
  have hnodes := hpaid.nodes
  exact ⟨after, hpaid.check, hpaid.le, hpaid.bounded, by omega⟩

theorem nil : Pays [] 2 := fun _ operators _ hdepth hoperators hcheck =>
  ⟨operators, hcheck, Nat.le_refl _, hoperators, by omega⟩

theorem operand {t : Token} (ht : t.word? ≠ none ∨ (number? t).isSome = true) (h : Pays w n) :
    Pays (.token t :: w) n := fun _ _ _ hdepth hoperators hcheck => by
  rw [List.map_cons, List.cons_append, origin, checkNestingFrom_operand ht] at hcheck
  exact h _ _ _ hdepth hoperators hcheck

theorem append (hu : Pays u m) (hv : Pays v n) : Pays (u ++ v) (max m n) :=
  fun _ _ _ hdepth hoperators hcheck => by
    rw [List.map_append, List.append_assoc] at hcheck
    obtain ⟨middle, hleft⟩ := hu _ _ _ hdepth hoperators hcheck
    obtain ⟨after, hright⟩ := hv _ _ _ hdepth hleft.bounded hleft.check
    have hnodes := hleft.nodes
    have hnodes' := hright.nodes
    have hle := hleft.le
    have hle' := hright.le
    exact ⟨after, hright.check, by omega, hright.bounded, by omega⟩

/-- An operator pays for the node that joins its operands. -/
theorem join {t : Terminal} {o : Operator} (ht : t.origin = .operator o) (ho : o ≠ .assign)
    (hu : Pays u m) (hv : Pays v n) : Pays (u ++ t :: v) (max m n + 1) :=
  fun _ _ _ hdepth hoperators hcheck => by
    rw [List.map_append, List.append_assoc, List.map_cons, ht] at hcheck
    obtain ⟨middle, hleft⟩ := hu _ _ _ hdepth hoperators hcheck
    obtain ⟨hlt, hbehind⟩ := checkNestingFrom_operator ho hleft.check
    obtain ⟨after, hright⟩ := hv _ _ _ hdepth hlt hbehind
    have hnodes := hleft.nodes
    have hnodes' := hright.nodes
    have hle := hleft.le
    have hle' := hright.le
    exact ⟨after, hright.check, by omega, hright.bounded, by omega⟩

/-- Parentheses pay for one node around what is between them. -/
theorem parens (h : Pays w n) :
    Pays (.token .openParen :: (w ++ [.token .closeParen])) (n + 1) :=
  fun _ _ _ hdepth hoperators hcheck => by
    rw [List.map_cons, List.map_append, List.cons_append, List.append_assoc] at hcheck
    obtain ⟨hlt, hinside⟩ := checkNestingFrom_openParen hcheck
    obtain ⟨after, hpaid⟩ := h _ _ _ hlt hoperators hinside
    have hnodes := hpaid.nodes
    exact ⟨after, hpaid.check, hpaid.le, hpaid.bounded, by omega⟩

end Pays

theorem origin_of_sum? {t : Terminal} {op : BinaryOp} (h : t.sum? = some op) :
    ∃ o, t.origin = .operator o ∧ o ≠ .assign := by
  match t with
  | .token (.operator .plus) => exact ⟨.plus, rfl, by decide⟩
  | .token (.operator .minus) => exact ⟨.minus, rfl, by decide⟩

theorem origin_of_product? {t : Terminal} {op : BinaryOp} (h : t.product? = some op) :
    ∃ o, t.origin = .operator o ∧ o ≠ .assign := by
  match t with
  | .token (.operator .times) => exact ⟨.times, rfl, by decide⟩
  | .token (.operator .divide) => exact ⟨.divide, rfl, by decide⟩
  | .remainder => exact ⟨.percent, rfl, by decide⟩

theorem UnitWord.pays {t : Token} {unit : String} (h : UnitWord t unit) : Pays [.token t] 2 :=
  .operand (.inl (by rw [h.word?]; exact Option.some_ne_none unit)) .nil

/-- The tokens of an expression pay for its nodes. -/
theorem Derives.pays {k : Category} {w : List Terminal} {e : Expr} (h : Derives k w e) :
    Pays w e.depth := by
  have hnumber : ∀ x, Pays [.token (.number x)] 2 := fun x => .operand (.inr rfl) .nil
  have hname : ∀ n, Pays [.token (.identifier n)] 2 := fun n =>
    .operand (.inl (Option.some_ne_none n)) .nil
  induction h with
  | summand _ ih | factor _ ih | base _ ih | unsigned _ ih | unsuffixed _ ih => exact ih
  | sum _ ht _ iha ihb =>
    obtain ⟨o, ht, ho⟩ := origin_of_sum? ht
    exact .join ht ho iha ihb
  | product _ ht _ iha ihb =>
    obtain ⟨o, ht, ho⟩ := origin_of_product? ht
    exact .join ht ho iha ihb
  | raised _ _ iha ihb => exact .join rfl (by decide) iha ihb
  | @minus w e _ _ ih =>
    have hjoin : Pays ([] ++ .sign .minus :: w) _ := .join rfl (by decide) .nil ih
    exact hjoin.mono (Nat.succ_le_succ (Nat.le_max_right ..))
  | @plus w e _ _ ih =>
    have hjoin : Pays ([] ++ .sign .plus :: w) _ := .join rfl (by decide) .nil ih
    exact hjoin.mono (Nat.le_succ_of_le (Nat.le_max_right ..))
  | percent _ ih =>
    have hjoin := Pays.join (t := .percent) (o := .percent) rfl (by decide) ih .nil
    exact hjoin.mono (Nat.succ_le_succ (Nat.le_max_left ..))
  | percentOf _ _ iha ihb =>
    exact .join (o := .percent) rfl (by decide) iha (.operand (.inl (Option.some_ne_none _)) ihb)
  | number => exact (hnumber _).mono (Nat.le_succ 1)
  | scaled _ => exact ((hnumber _).append (hname _)).mono (Nat.le_succ 1)
  | measured hunit _ => exact (hnumber _).append hunit.pays
  | scaledMeasured _ hunit => exact (hnumber _).append ((hname _).append hunit.pays)
  | call _ _ ih => exact .operand (.inl (Option.some_ne_none _)) ih.parens
  | earlier _ => exact .operand (.inl (Option.some_ne_none _)) (Pays.nil.mono (Nat.le_succ 1))
  | group _ ih => exact ih.parens.mono (Nat.le_succ _)
  | measuredGroup _ hunit ih =>
    have happend := ih.parens.append hunit.pays
    rw [List.cons_append, List.append_assoc] at happend
    exact happend.mono (Nat.le_max_left ..)
  | name => exact (hname _).mono (Nat.le_succ 1)

end Grammar

/-! ### Statements -/

namespace Statement
open Grammar

/-- Tokens that pass the check are parsed to an expression of bounded depth, however many of them there
are. -/
theorem depth_le_of_parse {l : Locale} {ts : List Token} {st : Statement}
    (hcheck : checkNesting ts = .ok ()) (hparse : parse l ts = .ok st) :
    st.expression.depth ≤ greatestOperators + greatestNesting + 2 := by
  obtain ⟨name, e, unit⟩ := st
  obtain ⟨rest, body, hassigns, hconverts, hderives⟩ := parse_ok_iff.1 hparse
  dsimp only at hassigns hconverts hderives ⊢
  have hrest : checkNestingFrom 0 0 rest = .ok () := by
    cases hassigns with
    | bound hword =>
      rw [checkNesting, checkNestingFrom_operand (.inl (by rw [hword]; exact Option.some_ne_none _))]
        at hcheck
      exact hcheck
    | unbound _ => exact hcheck
  obtain ⟨behind, hbody⟩ : ∃ behind, checkNestingFrom 0 0 (body ++ behind) = .ok () := by
    cases hconverts with
    | bound _ _ _ => exact ⟨_, hrest⟩
    | unbound _ => exact ⟨[], by rwa [List.append_nil]⟩
  rw [← map_origin_mark body] at hbody
  obtain ⟨after, hpaid⟩ := hderives.pays _ _ _ (Nat.zero_le _) (Nat.zero_le _) hbody
  have hnodes := hpaid.nodes
  have hbounded := hpaid.bounded
  omega

/-- A length in `n` pairs of parentheses, each with its unit behind it. -/
def enclosed : Nat → List Token
  | 0 => [.number 1, .identifier "km"]
  | n + 1 => .openParen :: (enclosed n ++ [.closeParen, .identifier "km"])

def enclosedExpr : Nat → Expr
  | 0 => .quantity (.number 1) "km"
  | n + 1 => .quantity (enclosedExpr n) "km"

theorem derives_enclosed (n : Nat) :
    Derives .primary ((enclosed n).map .token) (enclosedExpr n) := by
  have hunit : UnitWord (.identifier "km") "km" := .identifier (by decide)
  induction n with
  | zero => exact .measured hunit (by decide)
  | succ n ih =>
    rw [enclosed, List.map_cons, List.map_append]
    exact .measuredGroup (.summand (.factor (.base (.unsigned (.unsuffixed ih))))) hunit

theorem derives_minus {w : List Terminal} {e : Expr} (h : Derives (.signed .plain) w e) (n : Nat) :
    Derives (.signed .plain) (List.replicate n (.sign .minus) ++ w) (Nat.repeat .negate n e) := by
  induction n with
  | zero => exact h
  | succ n ih => exact .minus ih

/-- As many signs and parentheses as the check lets pass. -/
def deepest : List Token :=
  List.replicate greatestOperators (.operator .minus) ++ enclosed greatestNesting

/-- The bound is reached. -/
theorem depth_le_of_parse_deepest :
    ∃ e, checkNesting deepest = .ok () ∧ parse .english deepest = .ok ⟨none, e, none⟩ ∧
      e.depth ≤ greatestOperators + greatestNesting + 2 ∧
      e.depth = greatestOperators + greatestNesting + 2 := by
  let e : Expr := Nat.repeat .negate greatestOperators (enclosedExpr greatestNesting)
  have hcheck : checkNesting deepest = .ok () := by decide +kernel
  have hderives : Derives .sum (mark deepest) e := by
    have hmark : mark deepest = List.replicate greatestOperators (.sign .minus) ++
        (enclosed greatestNesting).map .token := by decide +kernel
    rw [hmark]
    exact .summand (.factor (.base (derives_minus (.unsigned (.unsuffixed (derives_enclosed _))) _)))
  have hassign : splitAssignment deepest = (none, deepest) := by decide +kernel
  have hconvert : splitConversion .english deepest = (deepest, none) := by decide +kernel
  have hparse : parse .english deepest = .ok ⟨none, e, none⟩ :=
    parse_ok_iff.2 ⟨deepest, deepest, splitAssignment_eq_iff.1 hassign,
      splitConversion_eq_iff.1 hconvert, hderives⟩
  exact ⟨e, hcheck, hparse, depth_le_of_parse hcheck hparse, by decide +kernel⟩

end Statement

end Reckoner

import Reckoner.Proofs.Finite
import Reckoner.Proofs.Double.Quotient

/-!
# Evaluation is strict

An expression has a value only if everything inside it has one (`eval_partOf`). The operand behind a
percent sign is the one place where this takes an argument about numbers: behind a plus or minus the
percentage is not evaluated as an expression of its own, so that its value, a hundredth of a finite
number, has to be shown to be finite (`eval_percent_of_percentage`).

A name without a value and a recall of results that are not there thus fail every statement around
them, and no later topic is asked (`answering_strict`).
-/

namespace Reckoner

namespace Expr

/-- The expressions that an expression is directly made of. -/
def operands : Expr → List Expr
  | number _ | name _ | earlier _ => []
  | quantity e _ | negate e | percent e | call _ e => [e]
  | binary _ e e' | percentOf e e' => [e, e']

/-- The expression `part` is `e` or stands somewhere inside it. -/
inductive PartOf (part : Expr) : Expr → Prop where
  | refl : PartOf part part
  | inner {e' e} : PartOf part e' → e' ∈ e.operands → PartOf part e

/-- A leaf that has no value: a recall while nothing is retained, or a name that is neither bound nor
a constant. -/
inductive Unknown (m : Memory) : Expr → Prop where
  | earlier (r : Recall) (empty : m.history = []) : Unknown m (earlier r)
  | name (word : String) (free : m.bindings.get? word = none) (pi : word ≠ "pi") (e : word ≠ "e") :
      Unknown m (name word)

variable {s : Scope} {e e' part : Expr}

/-! ### Operands -/

theorem eval_percent_of_percentage {v : Value} {x : Float} (he : e.eval s = .ok v)
    (hx : percentage v = .ok x) : (percent e).eval s = .ok (.number (x / 100)) := by
  have hfinite : x.isFinite = true := by
    unfold percentage at hx
    split at hx
    · cases hx
      exact e.gives_eval s v he
    · cases hx
  rw [eval, he]
  show (percentage v >>= fun x => finite (.number (x / 100))) = _
  rw [hx]
  exact if_pos (Double.isFinite_div_hundred hfinite)

/-- An expression asks for the values of all its operands. -/
theorem eval_operand {v : Value} (h : e.eval s = .ok v) (hmem : e' ∈ e.operands) :
    ∃ w, e'.eval s = .ok w := by
  simp only [operands] at hmem
  fun_cases Expr.eval s e with
  | case1 | case3 | case4 | case5 => cases hmem
  | case2 | case6 | case9 | case11 =>
    obtain ⟨w, hw, -⟩ := bind_eq_ok_iff.1 h
    obtain rfl := List.mem_singleton.1 hmem
    exact ⟨w, hw⟩
  | case7 op left e =>
    -- `percent e` is an operand that was not evaluated, only `e` was.
    obtain ⟨a, ha, h⟩ := bind_eq_ok_iff.1 h
    obtain ⟨b, hb, h⟩ := bind_eq_ok_iff.1 h
    obtain ⟨x, hx, -⟩ := bind_eq_ok_iff.1 h
    obtain rfl | rfl := List.mem_pair.1 hmem
    · exact ⟨a, ha⟩
    · exact ⟨_, eval_percent_of_percentage hb hx⟩
  | case8 op left right =>
    -- This equation of `eval` wants a right operand that is no percentage.
    rw [eval] at h
    · obtain ⟨a, ha, h⟩ := bind_eq_ok_iff.1 h
      obtain ⟨b, hb, -⟩ := bind_eq_ok_iff.1 h
      obtain rfl | rfl := List.mem_pair.1 hmem
      · exact ⟨a, ha⟩
      · exact ⟨b, hb⟩
    · assumption
  | case10 e base =>
    obtain ⟨a, ha, h⟩ := bind_eq_ok_iff.1 h
    obtain ⟨x, -, h⟩ := bind_eq_ok_iff.1 h
    obtain ⟨b, hb, -⟩ := bind_eq_ok_iff.1 h
    obtain rfl | rfl := List.mem_pair.1 hmem
    · exact ⟨a, ha⟩
    · exact ⟨b, hb⟩

theorem eval_partOf (hpart : part.PartOf e) {v : Value} (h : e.eval s = .ok v) :
    ∃ w, part.eval s = .ok w := by
  induction hpart generalizing v with
  | refl => exact ⟨v, h⟩
  | inner _ hmem ih =>
    obtain ⟨w, hw⟩ := eval_operand h hmem
    exact ih hw

/-! ### Leaves without a value -/

theorem recalled_of_history_eq_nil (hempty : s.memory.history = []) (r : Recall) :
    s.recalled r = .error (.emptyHistory r) := by
  cases r with
  | previous => simp [Scope.recalled, Memory.lastResult?, hempty]
  | sum | average => simp [Scope.recalled, Scope.historySum, hempty]

theorem Unknown.eval (h : part.Unknown s.memory) (v : Value) : part.eval s ≠ .ok v := by
  cases h with
  | earlier r hempty =>
    rw [Expr.eval, recalled_of_history_eq_nil hempty]
    rintro ⟨⟩
  | name word hfree hpi he =>
    have hconstant : constant? word = none := by
      simp [constant?, constants, Ne.symm hpi, Ne.symm he]
    have hnamed : s.named? word = none := by
      rw [Scope.named?, Scope.bound?, hfree, hconstant]
      rfl
    rw [Expr.eval, hnamed]
    rintro ⟨⟩

theorem Unknown.eval_whole (h : part.Unknown s.memory) (hpart : part.PartOf e) :
    ∃ f, e.eval s = .error f := by
  cases he : e.eval s with
  | error f => exact ⟨f, rfl⟩
  | ok v =>
    obtain ⟨w, hw⟩ := eval_partOf hpart he
    exact absurd hw (h.eval w)

end Expr

namespace Statement
variable {st : Statement} {m : Memory} {l : Locale}

theorem valueIn_of_eval_error {f : Failure} (h : st.expression.eval ⟨m, l⟩ = .error f) :
    ∃ f, st.valueIn m l = .error f := by
  have heval : st.eval ⟨m, l⟩ = .error f := by rw [eval, h]
  unfold valueIn
  cases st.assignment with
  | none => exact ⟨f, heval⟩
  | some name =>
    dsimp only
    cases checkName name with
    | error fault => exact ⟨_, rfl⟩
    | ok _ => exact ⟨f, heval⟩

end Statement

/-- A failing statement fails all topics that are asked: the first one that covers it ends the search
with the failure. -/
theorem Topic.exec_interpretFirst_of_failure {l : Locale} {st : Statement} {m : Memory} {f : Failure}
    (h : st.valueIn m l = .error f) (text : String) (ts : List Topic) :
    (interpretFirst l text (.ok st) ts).exec m =
      (.error (if ts.any (covers m st) then f else .reading (.uninterpretable text)), m) := by
  rw [exec_interpretFirst_ok, Statement.exec_run, h, ← List.isSome_find?]
  cases ts.find? (covers m st) <;> rfl

namespace Memory

/-- Evaluation is strict: an expression that has a value has one for each of its parts. A statement
with a part that has none fails with one and the same failure, whatever topics are asked as long as
one of them covers it, and so does an input that writes the statement; the memory stays as it was. -/
theorem answering_strict (m : Memory) (l : Locale) :
    (∀ (e : Expr) (v : Value), e.eval ⟨m, l⟩ = .ok v →
        ∀ part, Expr.PartOf part e → ∃ w, part.eval ⟨m, l⟩ = .ok w) ∧
      ∀ (st : Statement) (part : Expr), part.PartOf st.expression → part.Unknown m →
        ∃ f, (st.run l).exec m = (.error f, m) ∧
          (∀ text ts, (Topic.interpretFirst l text (.ok st) ts).exec m =
            (.error (if ts.any (Topic.covers m st) then f else .reading (.uninterpretable text)), m)) ∧
          ∀ text, Statement.ofInput l text = .ok st →
            (interpreting l text).exec m = (.error f, m) ∧
              ∀ d, (answering d l text).exec m = (.error f, m) := by
  refine ⟨fun e v h part hpart => Expr.eval_partOf hpart h, fun st part hpart hunknown => ?_⟩
  obtain ⟨_, hexpr⟩ := Expr.Unknown.eval_whole (s := ⟨m, l⟩) hunknown hpart
  obtain ⟨f, hf⟩ := Statement.valueIn_of_eval_error hexpr
  refine ⟨f, ?_, Topic.exec_interpretFirst_of_failure hf, fun text htext => ⟨?_, fun d => ?_⟩⟩
  · rw [Statement.exec_run, hf]
  · simp only [exec_interpreting, htext, hf]
  · simp only [exec_answering, htext, hf]

/-- The sum of no results fails a statement that only adds it as a percentage. -/
theorem exec_run_percent_of_nothing :
    (Expr.earlier .sum).PartOf (.binary .add (.number 1) (.percent (.earlier .sum))) ∧
      (Expr.earlier .sum).Unknown .new ∧
      ∃ f, ((Statement.mk (some "x") (.binary .add (.number 1) (.percent (.earlier .sum))) none).run
        .english).exec .new = (.error f, .new) := by
  have hpart : (Expr.earlier .sum).PartOf (.binary .add (.number 1) (.percent (.earlier .sum))) := by
    refine .inner (.inner .refl (e := .percent (.earlier .sum)) ?_) ?_
    · exact List.mem_singleton.2 rfl
    · exact List.mem_pair.2 (.inr rfl)
  have hunknown : (Expr.earlier .sum).Unknown .new := .earlier .sum rfl
  obtain ⟨f, hrun, -⟩ := (answering_strict .new .english).2 ⟨some "x", _, none⟩ _ hpart hunknown
  exact ⟨hpart, hunknown, f, hrun⟩

end Memory

end Reckoner

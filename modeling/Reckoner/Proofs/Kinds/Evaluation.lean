import Mathlib.Control.Monad.Basic
import Reckoner.Proofs.Finite
import Reckoner.Proofs.Kinds.Arithmetic

/-!
# Kinds are static

Two statements that differ in their literals only are evaluated in two memories that differ in their
amounts only. `Expr.Alike.eval` follows the evaluation through every form of expression, so that the
results are of one kind, and a failure on one side is matched on the other unless it is about an
amount (`Statement.run_alike`).
-/

namespace Reckoner
open Outcome (Alike)

/-- The memories have the same tables, names and entries, but for the amounts in them. -/
structure Memory.SameKinds (m m' : Memory) : Prop where
  table : m.table = m'.table
  /-- The rates are of the same codes, or there are none on either side. -/
  rates : m.rates.map (·.rates.keys) = m'.rates.map (·.rates.keys)
  /-- The same names are bound, to values of the same kinds. -/
  bindings : ∀ name, (m.bindings.get? name).map (·.kind) = (m'.bindings.get? name).map (·.kind)
  /-- There are as many entries, of the same kinds one by one. -/
  history : m.history.map (·.result.kind) = m'.history.map (·.result.kind)

namespace Scope

/-- The scopes differ in amounts only. -/
structure SameKinds (s s' : Scope) : Prop where
  memory : s.memory.SameKinds s'.memory
  locale : s.locale = s'.locale

namespace SameKinds
variable {s s' : Scope} {v v' w w' : Value} (h : s.SameKinds s')
include h

theorem units : s.units.SameKinds s'.units := ⟨h.memory.table, h.locale, h.memory.rates⟩

theorem bound? (name : String) : Option.Rel Value.SameKind (s.bound? name) (s'.bound? name) := by
  have hkinds := h.memory.bindings name
  unfold Scope.bound?
  cases hv : s.memory.bindings.get? name <;> cases hv' : s'.memory.bindings.get? name <;>
    rw [hv, hv'] at hkinds
  · exact .none
  · exact nomatch hkinds
  · exact nomatch hkinds
  · exact .some (Option.some.inj hkinds)

theorem named? (name : String) : Option.Rel Value.SameKind (s.named? name) (s'.named? name) := by
  have hbound := h.bound? name
  unfold Scope.named?
  generalize s.bound? name = o at hbound
  generalize s'.bound? name = o' at hbound
  cases hbound with
  | some hv => exact .some hv
  | none =>
    dsimp only
    cases constant? name with
    | none => exact .none
    | some x => exact .some rfl

theorem quantity (hv : v.SameKind v') (word : String) :
    Alike Value.SameKind (s.quantity v word) (s'.quantity v' word) := by
  have hbound := h.bound? word
  have hnamed := h.named? word
  have hconvert := h.units.convertTo hv word
  unfold Scope.quantity
  rw [h.units.resolve?_eq word]
  generalize s.bound? word = o at hbound
  generalize s'.bound? word = o' at hbound
  cases hbound with
  | some hw => exact Value.multiply_alike hv hw
  | none =>
    dsimp only
    split
    · exact hconvert
    · generalize s.named? word = o at hnamed
      generalize s'.named? word = o' at hnamed
      cases hnamed with
      | some hw => exact Value.multiply_alike hv hw
      | none => trivial

theorem sumFrom (hv : v.SameKind v') {es es' : List Entry}
    (hes : es.map (·.result.kind) = es'.map (·.result.kind)) :
    Alike Value.SameKind (s.sumFrom v es) (s'.sumFrom v' es') := by
  induction es generalizing v v' es' with
  | nil =>
    cases es' with
    | nil => exact hv
    | cons e' es' => exact nomatch hes
  | cons e es ih =>
    cases es' with
    | nil => exact nomatch hes
    | cons e' es' =>
      obtain ⟨he, hes⟩ := List.cons.inj hes
      have hbind := (h.units.combine "add" (· + ·) hv he).bind fun x y hxy => ih hxy hes
      unfold Scope.sumFrom Units.add
      revert hbind
      cases s.units.combine "add" (· + ·) v e.result <;>
        cases s'.units.combine "add" (· + ·) v' e'.result <;> exact id

theorem historySum : Alike (Option.Rel Value.SameKind) s.historySum s'.historySum := by
  have hhistory := h.memory.history
  unfold Scope.historySum
  cases hes : s.memory.history <;> cases hes' : s'.memory.history <;> rw [hes, hes'] at hhistory
  · exact .none
  · exact nomatch hhistory
  · exact nomatch hhistory
  · obtain ⟨he, hes⟩ := List.cons.inj hhistory
    exact (h.sumFrom he hes).map fun _ _ => .some

theorem lastResult? :
    Option.Rel Value.SameKind s.memory.lastResult? s'.memory.lastResult? := by
  have hkinds : s.memory.lastResult?.map (·.kind) = s'.memory.lastResult?.map (·.kind) := by
    have hlast := congrArg List.getLast? h.memory.history
    rw [List.getLast?_map, List.getLast?_map] at hlast
    simpa [Memory.lastResult?, Function.comp_def] using hlast
  cases hv : s.memory.lastResult? <;> cases hv' : s'.memory.lastResult? <;> rw [hv, hv'] at hkinds
  · exact .none
  · exact nomatch hkinds
  · exact nomatch hkinds
  · exact .some (Option.some.inj hkinds)

/-- Something made of the sum of the entries, if there are any. -/
theorem summed {f f' : Value → Outcome Value} (r : Recall)
    (hf : ∀ v v', v.SameKind v' → Alike Value.SameKind (f v) (f' v')) :
    Alike Value.SameKind
      (match s.historySum with
        | .error e => .error e
        | .ok none => .error (.emptyHistory r)
        | .ok (some v) => f v)
      (match s'.historySum with
        | .error e => .error e
        | .ok none => .error (.emptyHistory r)
        | .ok (some v) => f' v) := by
  have hbind : Alike Value.SameKind
      (s.historySum >>= fun v => v.elim (.error (.emptyHistory r)) f)
      (s'.historySum >>= fun v => v.elim (.error (.emptyHistory r)) f') := by
    refine h.historySum.bind fun v v' hv => ?_
    cases hv with
    | none => trivial
    | some hv => exact hf _ _ hv
  revert hbind
  rcases s.historySum with _ | _ | _ <;> rcases s'.historySum with _ | _ | _ <;> exact id

theorem recalled (r : Recall) : Alike Value.SameKind (s.recalled r) (s'.recalled r) := by
  cases r with
  | previous =>
    have hlast := h.lastResult?
    unfold Scope.recalled
    dsimp only
    generalize s.memory.lastResult? = o at hlast
    generalize s'.memory.lastResult? = o' at hlast
    cases hlast with
    | some hv => exact hv
    | none => trivial
  | sum => exact h.summed .sum fun v v' hv => hv
  | average =>
    exact h.summed .average fun v v' hv => h.units.divide hv (Value.sameKind_number _ _)

theorem binary (op : BinaryOp) (hv : v.SameKind v') (hw : w.SameKind w') :
    Alike Value.SameKind (s.binary op v w) (s'.binary op v' w') := by
  cases op with
  | add => exact h.units.combine "add" _ hv hw
  | subtract => exact h.units.combine "subtract" _ hv hw
  | multiply => exact Value.multiply_alike hv hw
  | divide => exact h.units.divide hv hw
  | remainder => exact h.units.remainder hv hw
  | power => exact Value.power_alike hv hw

theorem call (f : Function) (hv : v.SameKind v') :
    Alike Value.SameKind (s.call f v) (s'.call f v') := by
  have hargument : Alike Value.SameKind (if f.takesAngle then s.units.toRadians v else .ok v)
      (if f.takesAngle then s'.units.toRadians v' else .ok v') := by
    split
    · exact h.units.toRadians hv
    · exact hv
  unfold Scope.call
  split
  · exact Value.SameKind.withAmount hv _ _
  · have hbind : Alike Value.SameKind
        ((if f.takesAngle then s.units.toRadians v else .ok v) >>= fun v =>
          if v.isNumber then .ok (.number (f.apply v.amount)) else .error (.clash (.argument f v)))
        ((if f.takesAngle then s'.units.toRadians v' else .ok v') >>= fun v =>
          if v.isNumber then .ok (.number (f.apply v.amount)) else
            .error (.clash (.argument f v))) := by
      refine hargument.bind fun v v' hv => ?_
      rw [hv.isNumber_eq]
      split
      · exact Value.sameKind_number _ _
      · trivial
    revert hbind
    generalize (if f.takesAngle then s.units.toRadians v else .ok v) = o
    generalize (if f.takesAngle then s'.units.toRadians v' else .ok v') = o'
    cases o <;> cases o' <;> exact id

end SameKinds

end Scope

theorem alike_percentage {v w : Value} (h : v.SameKind w) :
    Alike (fun _ _ => True) (percentage v) (percentage w) := by
  unfold percentage
  rw [h.isNumber_eq]
  split <;> trivial

/-- The expressions differ in their literals only. -/
inductive Expr.Alike : Expr → Expr → Prop where
  | number (x y : Float) : Alike (.number x) (.number y)
  | quantity {e e'} (word : String) : Alike e e' → Alike (.quantity e word) (.quantity e' word)
  | name (word : String) : Alike (.name word) (.name word)
  | earlier (r : Recall) : Alike (.earlier r) (.earlier r)
  | negate {e e'} : Alike e e' → Alike (.negate e) (.negate e')
  | binary {e e' b b'} (op : BinaryOp) : Alike e e' → Alike b b' →
    Alike (.binary op e b) (.binary op e' b')
  | percent {e e'} : Alike e e' → Alike (.percent e) (.percent e')
  | percentOf {e e' b b'} : Alike e e' → Alike b b' → Alike (.percentOf e b) (.percentOf e' b')
  | call {e e'} (f : Function) : Alike e e' → Alike (.call f e) (.call f e')

/-- Literals decide neither the kind of a value nor, but for amounts, a failure. -/
theorem Expr.Alike.eval {s s' : Scope} (h : s.SameKinds s') {e e' : Expr} (he : e.Alike e') :
    Outcome.Alike Value.SameKind (e.eval s) (e'.eval s') := by
  fun_induction Expr.eval s e generalizing e' with
  | case1 x =>
    cases he with
    | number _ y => exact alike_finite (Value.sameKind_number x y)
  | case2 e word ih =>
    cases he with
    | quantity _ he =>
      rw [Expr.eval]
      exact (ih he).bind fun v v' hv => (h.quantity hv word).bind fun _ _ => alike_finite
  | case3 word v hnamed =>
    cases he
    have hword := h.named? word
    rw [hnamed] at hword
    rw [Expr.eval]
    generalize s'.named? word = o at hword
    cases hword with
    | some hv => exact alike_finite hv
  | case4 word hnamed =>
    cases he
    have hword := h.named? word
    rw [hnamed] at hword
    rw [Expr.eval]
    generalize s'.named? word = o at hword
    cases hword with
    | none => trivial
  | case5 r =>
    cases he
    rw [Expr.eval]
    exact (h.recalled r).bind fun _ _ => alike_finite
  | case6 e ih =>
    cases he with
    | negate he =>
      rw [Expr.eval]
      exact (ih he).bind fun v v' hv => alike_finite (Value.SameKind.withAmount hv _ _)
  | case7 op left e ihl ihr =>
    cases he with
    | binary _ hl hr =>
      cases hr with
      | percent hr =>
        rw [Expr.eval]
        refine (ihl hl).bind fun a a' ha => (ihr hr).bind fun b b' hb => ?_
        refine (alike_percentage hb).bind fun x y _ => ?_
        -- adding a percentage scales the left side; the other operators take it as a plain number
        cases op with
        | add | subtract => exact alike_finite (Value.SameKind.withAmount ha _ _)
        | _ =>
          exact (alike_finite (Value.sameKind_number _ _)).bind fun _ _ hc =>
            (h.binary _ ha hc).bind fun _ _ => alike_finite
  | case8 op left right hright ihl ihr =>
    cases he with
    | binary _ hl hr =>
      rw [Expr.eval]
      · refine (ihl hl).bind fun a a' ha => (ihr hr).bind fun b b' hb => ?_
        exact (h.binary op ha hb).bind fun _ _ => alike_finite
      · -- what is like an operand without `%` is without `%` itself
        rintro e rfl
        cases hr
        exact hright _ rfl
  | case9 e ih =>
    cases he with
    | percent he =>
      rw [Expr.eval]
      exact (ih he).bind fun v v' hv => (alike_percentage hv).bind fun _ _ _ =>
        alike_finite (Value.sameKind_number _ _)
  | case10 e base ih ihb =>
    cases he with
    | percentOf he hb =>
      rw [Expr.eval]
      refine (ih he).bind fun v v' hv => (alike_percentage hv).bind fun _ _ _ => ?_
      exact (ihb hb).bind fun b b' hb => alike_finite (Value.SameKind.withAmount hb _ _)
  | case11 f e ih =>
    cases he with
    | call _ he =>
      rw [Expr.eval]
      exact (ih he).bind fun v v' hv => (h.call f hv).bind fun _ _ => alike_finite

namespace Statement

/-- The statements differ in the literals of their expressions only. -/
structure Alike (st st' : Statement) : Prop where
  assignment : st.assignment = st'.assignment
  expression : st.expression.Alike st'.expression
  conversion : st.conversion = st'.conversion

theorem eval_eq_bind (st : Statement) (s : Scope) :
    st.eval s = st.expression.eval s >>= fun v =>
      match st.conversion with
      | none => .ok v
      | some target => s.units.convertTo v target >>= finite := by
  unfold Statement.eval
  cases st.expression.eval s with
  | error e => rfl
  | ok v =>
    cases st.conversion with
    | none => rfl
    | some target =>
      show _ = s.units.convertTo v target >>= finite
      dsimp only
      cases s.units.convertTo v target <;> rfl

theorem Alike.eval {s s' : Scope} (h : s.SameKinds s') {st st' : Statement} (hst : st.Alike st') :
    Outcome.Alike Value.SameKind (st.eval s) (st'.eval s') := by
  rw [eval_eq_bind, eval_eq_bind, ← hst.conversion]
  refine (hst.expression.eval h).bind fun v v' hv => ?_
  cases st.conversion with
  | none => exact hv
  | some target => exact (h.units.convertTo hv target).bind fun _ _ => alike_finite

theorem Alike.valueIn {st st' : Statement} (hst : st.Alike st') {m m' : Memory}
    (hm : m.SameKinds m') (l : Locale) :
    Outcome.Alike Value.SameKind (st.valueIn m l) (st'.valueIn m' l) := by
  have hscope : Scope.SameKinds ⟨m, l⟩ ⟨m', l⟩ := ⟨hm, rfl⟩
  have heval := hst.eval hscope
  unfold Statement.valueIn
  rw [← hst.assignment]
  cases st.assignment with
  | none => exact heval
  | some name =>
    dsimp only
    cases checkName name with
    | error e => trivial
    | ok u => exact heval

/-- Statements that differ in their literals, evaluated in memories that differ in amounts, give
values of one kind; and where one of them fails for another reason than a division by zero or a
number that is not finite, so does the other. -/
theorem run_alike {st st' : Statement} (hst : st.Alike st') {m m' : Memory} (hm : m.SameKinds m')
    (l : Locale) :
    (∀ v v', ((st.run l).exec m).1 = .ok v → ((st'.run l).exec m').1 = .ok v' → v.kind = v'.kind) ∧
    (∀ e, ((st.run l).exec m).1 = .error e → e ≠ .divisionByZero → e ≠ .notFinite →
      ∃ e', ((st'.run l).exec m').1 = .error e') ∧
    ∀ e, ((st'.run l).exec m').1 = .error e → e ≠ .divisionByZero → e ≠ .notFinite →
      ∃ e', ((st.run l).exec m).1 = .error e' := by
  have hrun : ∀ (st : Statement) m, ((st.run l).exec m).1 = st.valueIn m l := by
    intro st m
    rw [exec_run]
    cases st.valueIn m l <;> rfl
  have hvalue := hst.valueIn hm l
  have hfault : ∀ {e : Failure}, e ≠ .divisionByZero → e ≠ .notFinite → e.isNumeric ≠ true := by
    intro e hzero hfinite he
    cases e <;> first | exact hzero rfl | exact hfinite rfl | exact nomatch he
  rw [hrun, hrun]
  refine ⟨fun v v' hv hv' => ?_, fun e he hzero hfinite => ?_, fun e he hzero hfinite => ?_⟩
  · rw [hv, hv'] at hvalue
    exact hvalue
  · rw [he] at hvalue
    cases ho : st'.valueIn m' l with
    | error e' => exact ⟨e', rfl⟩
    | ok v =>
      rw [ho] at hvalue
      exact absurd hvalue (hfault hzero hfinite)
  · rw [he] at hvalue
    cases ho : st.valueIn m l with
    | error e' => exact ⟨e', rfl⟩
    | ok v =>
      rw [ho] at hvalue
      exact absurd hvalue (hfault hzero hfinite)

/-- A price and a distance are not added, whatever the amounts. -/
theorem run_alike_clash :
    let st (x : Float) : Statement :=
      ⟨none, .binary .add (.number x) (.binary .add (.name "fare") (.name "way")), none⟩
    let m (x : Float) : Memory :=
      (Memory.new.bind "fare" ⟨x, .currency "USD"⟩).bind "way" ⟨x, .unit "km"⟩
    ∃ e, (((st 0).run .english).exec (m 7)).1 = .error e := by
  intro st m
  have hst : ∀ x y, (st x).Alike (st y) := fun x y =>
    ⟨rfl, .binary .add (.number x y) (.binary .add (.name "fare") (.name "way")), rfl⟩
  have hm : ∀ x y, (m x).SameKinds (m y) := by
    refine fun x y => ⟨rfl, rfl, fun name => ?_, rfl⟩
    simp only [m, Memory.bind, Dictionary.get?_insert]
    split
    · rfl
    · split <;> rfl
  have hclash : (((st 1).run .english).exec (m 2)).1 =
      .error (.clash (.combine "add" "USD" "km")) := by decide +kernel
  exact (run_alike (hst 1 0) (hm 2 7) .english).2.1 _ hclash (by rintro ⟨⟩) (by rintro ⟨⟩)

end Statement

end Reckoner

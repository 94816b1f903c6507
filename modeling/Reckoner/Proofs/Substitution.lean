import Mathlib.Control.Monad.Basic
import Reckoner.Proofs.Dependence

/-!
# Names and what they stand for

A name that is bound to the value of an expression means what the expression means: putting the
expression in the place of the name changes no outcome (`Expr.eval_bind`). A quantity whose word is
the name becomes a product. The one form that cannot stand for its value is a percentage, for behind
a plus or minus sign `X%` is not read as a number but scales what is before it.
-/

namespace Reckoner

namespace Expr

/-- The expression with `e` in the place of the name `x`. -/
def substitute (g : Expr) (x : String) (e : Expr) : Expr :=
  match g with
  | number y => .number y
  | quantity value word =>
    if word = x then .binary .multiply (value.substitute x e) e
    else .quantity (value.substitute x e) word
  | name word => if word = x then e else .name word
  | earlier r => .earlier r
  | negate inner => .negate (inner.substitute x e)
  | binary op left right => .binary op (left.substitute x e) (right.substitute x e)
  | percent inner => .percent (inner.substitute x e)
  | percentOf part base => .percentOf (part.substitute x e) (base.substitute x e)
  | call f argument => .call f (argument.substitute x e)

/-- Whether an expression is of the form `X%`. -/
def isPercent : Expr → Bool
  | percent _ => true
  | _ => false

theorem isPercent_substitute {e : Expr} (he : e.isPercent = false) (g : Expr) (x : String) :
    (g.substitute x e).isPercent = g.isPercent := by
  cases g with
  | name word =>
    rw [substitute]
    split
    · exact he
    · rfl
  | quantity value word =>
    rw [substitute]
    split <;> rfl
  | _ => rfl

/-- An operator reads its right operand as it stands unless that is a percentage. -/
theorem eval_binary_of_not_percent {right : Expr} (h : right.isPercent = false) (s : Scope)
    (op : BinaryOp) (left : Expr) :
    (binary op left right).eval s =
      left.eval s >>= fun a => right.eval s >>= fun b => s.binary op a b >>= finite := by
  rw [eval]
  rintro e rfl
  exact absurd h.symm Bool.false_ne_true

end Expr

theorem finite_of_finite {v : Value} (h : v.Finite) : finite v = .ok v := if_pos h

namespace Scope
variable {m : Memory} {l : Locale} {x word : String} {v : Value}

theorem bound?_bind_self : Scope.bound? ⟨m.bind x v, l⟩ x = some v := Dictionary.get?_insert_self ..

theorem bound?_bind_of_ne (h : word ≠ x) :
    Scope.bound? ⟨m.bind x v, l⟩ word = Scope.bound? ⟨m, l⟩ word :=
  (Dictionary.get?_insert ..).trans (if_neg (Ne.symm h))

theorem quantity_bind_of_ne (h : word ≠ x) (a : Value) :
    Scope.quantity ⟨m.bind x v, l⟩ a word = Scope.quantity ⟨m, l⟩ a word := by
  have hunits : Scope.units ⟨m.bind x v, l⟩ = Scope.units ⟨m, l⟩ := rfl
  exact quantity_congr hunits (bound?_bind_of_ne h) a

theorem recalled_bind (r : Recall) :
    Scope.recalled ⟨m.bind x v, l⟩ r = Scope.recalled ⟨m, l⟩ r := by
  have hunits : Scope.units ⟨m.bind x v, l⟩ = Scope.units ⟨m, l⟩ := rfl
  exact recalled_congr hunits rfl r

end Scope

/-- A name bound to the value of an expression can be replaced by the expression, whatever the name
meant before. -/
theorem Expr.eval_bind (m : Memory) (l : Locale) {e : Expr} {v : Value} (he : e.eval ⟨m, l⟩ = .ok v)
    (hpercent : e.isPercent = false) (x : String) (g : Expr) :
    g.eval ⟨m.bind x v, l⟩ = (g.substitute x e).eval ⟨m, l⟩ := by
  -- the bindings are all that differs between the two scopes
  have hbinary : Scope.binary ⟨m.bind x v, l⟩ = Scope.binary ⟨m, l⟩ := rfl
  fun_induction Expr.eval ⟨m.bind x v, l⟩ g with
  | case1 y => rfl
  | case2 g word ih =>
    rw [substitute, ih]
    by_cases hword : word = x
    · subst hword
      rw [if_pos rfl, eval_binary_of_not_percent hpercent, he]
      simp only [Scope.quantity, Scope.bound?_bind_self]
      rfl
    · rw [if_neg hword, eval]
      simp only [Scope.quantity_bind_of_ne hword]
  | case3 word w hw =>
    rw [substitute]
    by_cases hword : word = x
    · subst hword
      rw [Scope.named?, Scope.bound?_bind_self] at hw
      cases hw
      rw [if_pos rfl, he, finite_of_finite (e.gives_eval _ _ he)]
    · rw [Scope.named?_congr (Scope.bound?_bind_of_ne hword)] at hw
      rw [if_neg hword, eval, hw]
  | case4 word hw =>
    have hword : word ≠ x := by
      rintro rfl
      rw [Scope.named?, Scope.bound?_bind_self] at hw
      cases hw
    rw [Scope.named?_congr (Scope.bound?_bind_of_ne hword)] at hw
    rw [substitute, if_neg hword, eval, hw]
  | case5 r =>
    rw [substitute, eval, Scope.recalled_bind]
  | case6 g ih => rw [substitute, eval, ih]
  | case7 op left g ihl ihr => rw [substitute, substitute, eval, ihl, ihr, hbinary]
  | case8 op left right hright ihl ihr =>
    have hplain : right.isPercent = false := by
      cases right with
      | percent g => exact absurd rfl (hright g)
      | _ => rfl
    have hsubstituted : (right.substitute x e).isPercent = false :=
      (isPercent_substitute hpercent right x).trans hplain
    rw [substitute, eval_binary_of_not_percent hsubstituted, ihl, ihr, hbinary]
  | case9 g ih => rw [substitute, eval, ih]
  | case10 g base ih ihb => rw [substitute, eval, ih, ihb]
  | case11 f g ih =>
    rw [substitute, eval, ih]
    rfl

/-- With `km` bound to the value of `2 + 3`, the input `4 km - km` means `4 * (2 + 3) - (2 + 3)`. -/
theorem Expr.eval_bind_shadowed :
    let e : Expr := .binary .add (.number 2) (.number 3)
    let g : Expr := .binary .subtract (.quantity (.number 4) "km") (.name "km")
    e.eval ⟨.new, .english⟩ = .ok (.number 5) ∧ e.isPercent = false ∧
      g.eval ⟨Memory.new.bind "km" (.number 5), .english⟩ =
        (Expr.binary .subtract (.binary .multiply (.number 4) e) e).eval ⟨.new, .english⟩ := by
  intro e g
  have he : e.eval ⟨.new, .english⟩ = .ok (.number 5) := by decide +kernel
  exact ⟨he, rfl, eval_bind .new .english he rfl "km" g⟩

end Reckoner

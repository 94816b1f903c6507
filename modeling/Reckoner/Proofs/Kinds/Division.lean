import Mathlib.Logic.Basic
import Reckoner.Arithmetic

/-!
# Quotients and remainders

Both go through the same cases: a number divides as it is, a number is not divided by a quantity, and a
quantity divides once it is converted to the unit of the dividend. What holds of both is shown of
`Units.dividing`.
-/

namespace Reckoner.Units
variable {u : Units} {a b v : Value} {x : Float} {f g : Float → Value} {c : UnitClash}

/-- The value, unless the divisor is zero. -/
def unlessZero (divisor : Float) (v : Value) : Outcome Value :=
  if divisor == 0 then .error .divisionByZero else .ok v

theorem unlessZero_eq_error_iff : unlessZero x v = .error .divisionByZero ↔ (x == 0) = true := by
  unfold unlessZero
  split <;> simp [*]

/-- The form of quotients and remainders: `f` is what a number as divisor gives, `g` a quantity in the
unit of the dividend, and `c` the clash of a number with a quantity. -/
def dividing (u : Units) (a b : Value) (f g : Float → Value) (c : UnitClash) : Outcome Value :=
  match a.kind, b.kind with
  | _, .number => unlessZero b.amount (f b.amount)
  | .number, _ => .error (.clash c)
  | _, _ =>
    match u.amountIn b a.kind with
    | .error e => .error e
    | .ok y => unlessZero y (g y)

theorem divide_eq (u : Units) (a b : Value) :
    u.divide a b = u.dividing a b (fun y => a.withAmount (a.amount / y))
      (fun y => .number (a.amount / y)) (.divideNumber b.label) := rfl

theorem remainder_eq (u : Units) (a b : Value) :
    u.remainder a b = u.dividing a b (fun y => a.withAmount (Double.remainder a.amount y))
      (fun y => a.withAmount (Double.remainder a.amount y)) (.remainderOfNumber b.label) := rfl

theorem dividing_by_number (hb : b.kind = .number) :
    u.dividing a b f g c = unlessZero b.amount (f b.amount) := by
  unfold dividing
  rw [hb]

theorem dividing_number (ha : a.kind = .number) (hb : b.kind ≠ .number) :
    u.dividing a b f g c = .error (.clash c) := by
  unfold dividing
  rw [ha]
  cases hkind : b.kind with
  | number => exact absurd hkind hb
  | _ => rfl

theorem dividing_quantities (ha : a.kind ≠ .number) (hb : b.kind ≠ .number) :
    u.dividing a b f g c = u.amountIn b a.kind >>= fun y => unlessZero y (g y) := by
  unfold dividing
  cases hj : b.kind with
  | number => exact absurd hj hb
  | _ =>
    cases hk : a.kind with
    | number => exact absurd hk ha
    | _ =>
      dsimp only
      cases u.amountIn _ _ <;> rfl

end Reckoner.Units

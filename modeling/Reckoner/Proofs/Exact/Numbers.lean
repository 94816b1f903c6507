import Reckoner.Evaluation
import Reckoner.Proofs.Double.Rational

/-!
# Conversions and sums in other numbers

What conversions and sums do is written in four operations, and `Numbers` is what these are for one type
of number. In doubles they are what a session evaluates: `convertMeasure_doubles`, `convertAmount_doubles`,
`convertRate_doubles`, `amountIn_doubles`, `add_doubles` and `total_doubles` say so one by one. In
rationals the same formulas are exact, and a quotient by zero is a failure, so that an outcome without
failure is one without a division by zero.
-/

namespace Reckoner

/-- Numbers to reckon in: the double that stands in a table as one of them, and their operations. -/
structure Numbers (α : Type) where
  ofDouble : Float → α
  sum : α → α → α
  difference : α → α → α
  product : α → α → α
  quotient : α → α → Outcome α

/-- An amount in any numbers, and what it measures. -/
structure Quantity (α : Type) where
  amount : α
  kind : Kind

def Value.quantity (v : Value) : Quantity Float := ⟨v.amount, v.kind⟩

namespace Numbers

def doubles : Numbers Float where
  ofDouble := id
  sum x y := x + y
  difference x y := x - y
  product x y := x * y
  quotient x y := .ok (x / y)

def rationals : Numbers ℚ where
  ofDouble := Double.rational
  sum x y := x + y
  difference x y := x - y
  product x y := x * y
  quotient x y := if y = 0 then .error .divisionByZero else .ok (x / y)

section
variable {α : Type} (n : Numbers α) (u : Units)

def toBase (m : Measure) (amount : α) : α :=
  n.sum (n.product amount (n.ofDouble m.factor)) (n.ofDouble m.offset)

def fromBase (m : Measure) (base : α) : Outcome α :=
  n.quotient (n.difference base (n.ofDouble m.offset)) (n.ofDouble m.factor)

/-- The amount in another unit of the same category. -/
def convertMeasure (amount : α) (source target : Measure) : Outcome α :=
  if source.category ≠ target.category then
    .error (.clash (.categories source.symbol source.category.text target.symbol
      target.category.text))
  else if source.symbol = target.symbol then .ok amount
  else n.fromBase target (n.toBase source amount)

/-- The amount in the unit that another word names. -/
def convertAmount (amount : α) (source target : String) : Outcome α := do
  n.convertMeasure amount (← u.measureOf source) (← u.measureOf target)

/-- The amount in another currency of the set. -/
def convertRate (s : RateSet) (amount : α) (source target : String) : Outcome α :=
  if source = target then .ok amount
  else
    match s.rate? source, s.rate? target with
    | none, _ => .error (.missingRate source)
    | some _, none => .error (.missingRate target)
    | some x, some y => n.quotient (n.product amount (n.ofDouble y)) (n.ofDouble x)

/-- The amount of a quantity in another kind. -/
def amountIn (v : Quantity α) (target : Kind) : Outcome α :=
  match v.kind, target with
  | .number, _ => .ok v.amount
  | .unit a, .unit b => do
    let source ← u.measure a
    let target ← u.measure b
    n.convertMeasure v.amount source target
  | .currency a, .currency b =>
    if a = b then .ok v.amount
    else
      match u.rates with
      | none => .error (.missingRate a)
      | some rates => n.convertRate rates v.amount a b
  | kind, .number => .error (.clash (.convert kind.label "a number"))
  | kind, target => .error (.clash (.convert kind.label target.label))

/-- The sum of two quantities, in the unit of the left one. -/
def add (a b : Quantity α) : Outcome (Quantity α) :=
  match a.kind, b.kind with
  | .number, _ => .ok ⟨n.sum a.amount b.amount, b.kind⟩
  | _, .number => .ok ⟨n.sum a.amount b.amount, a.kind⟩
  | _, _ =>
    match n.amountIn u b a.kind with
    | .ok amount => .ok ⟨n.sum a.amount amount, a.kind⟩
    | .error (.clash _) => .error (.clash (.combine "add" a.kind.label b.kind.label))
    | .error e => .error e

/-- The sum of quantities from the first one on; nothing if there are none. -/
def total : List (Quantity α) → Outcome (Option (Quantity α))
  | [] => .ok none
  | v :: vs => (vs.foldlM (n.add u) v).map some

end

/-! ### Doubles -/

theorem convertMeasure_doubles (x : Float) (m m' : Measure) :
    doubles.convertMeasure x m m' = Reckoner.convertMeasure x m m' := rfl

theorem convertAmount_doubles (u : Units) (x : Float) (source target : String) :
    doubles.convertAmount u x source target = u.convertAmount x source target := rfl

theorem convertRate_doubles (s : RateSet) (x : Float) (source target : String) :
    doubles.convertRate s x source target = (s.convert x source target).mapError .missingRate := by
  unfold convertRate RateSet.convert
  split
  · rfl
  · cases s.rate? source with
    | none => rfl
    | some x => cases s.rate? target <;> rfl

theorem amountIn_doubles (u : Units) (v : Value) (k : Kind) :
    doubles.amountIn u v.quantity k = u.amountIn v k := by
  obtain ⟨x, j⟩ := v
  cases j with
  | number => rfl
  | unit a => cases k <;> rfl
  | currency a =>
    cases k with
    | number | unit b => rfl
    | currency b =>
      by_cases hab : a = b
      · simp [amountIn, Value.quantity, Units.amountIn, hab]
      · cases hrates : u.rates <;>
          simp [amountIn, Value.quantity, Units.amountIn, convertRate_doubles, hab, hrates]

theorem add_doubles (u : Units) (a b : Value) :
    doubles.add u a.quantity b.quantity = (u.add a b).map Value.quantity := by
  have hamount := amountIn_doubles u b a.kind
  obtain ⟨x, j⟩ := a
  obtain ⟨y, k⟩ := b
  cases j with
  | number => rfl
  | _ =>
    cases k with
    | number => rfl
    | _ =>
      simp only [add, Value.quantity, Units.add, Units.combine] at hamount ⊢
      rw [hamount]
      generalize u.amountIn _ _ = outcome
      rcases outcome with e | amount
      · cases e <;> rfl
      · rfl

theorem foldlM_add_doubles (s : Scope) (v : Value) (es : List Entry) :
    (es.map (·.result.quantity)).foldlM (doubles.add s.units) v.quantity =
      (s.sumFrom v es).map Value.quantity := by
  induction es generalizing v with
  | nil => rfl
  | cons e es ih =>
    rw [List.map_cons, List.foldlM_cons, add_doubles, Scope.sumFrom]
    cases s.units.add v e.result with
    | error f => rfl
    | ok v => exact ih v

/-- The total of the results is the sum that a statement recalls. -/
theorem total_doubles (s : Scope) :
    doubles.total s.units (s.memory.history.map (·.result.quantity)) =
      s.historySum.map (·.map Value.quantity) := by
  unfold Scope.historySum
  cases s.memory.history with
  | nil => rfl
  | cons e es =>
    rw [List.map_cons, total, foldlM_add_doubles]
    dsimp only
    cases s.sumFrom e.result es <;> rfl

end Numbers

end Reckoner

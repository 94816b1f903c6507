import Reckoner.Proofs.Finite
import Reckoner.Proofs.Kinds.Division
import Reckoner.Proofs.Measure.Table

/-!
# Units that are found

With a unit in the table whose symbol can be written, no evaluation fails because of that symbol.
`Outcome.Finds symbol` says so of one outcome. It passes through sequences (`Finds.bind`), and each
operation on values looks symbols up in the table, where this one is, or fails for another reason.
-/

namespace Reckoner

/-! ### Outcomes that do not miss a unit -/

/-- The outcome is not that the unit `symbol` is unknown. -/
def Outcome.Finds {α : Type} (symbol : String) (o : Outcome α) : Prop :=
  o ≠ .error (.unknownUnit symbol)

namespace Outcome.Finds
variable {α β : Type} {symbol : String}

theorem ok (x : α) : Finds symbol (.ok x) := nofun

theorem error {e : Failure} (h : e ≠ .unknownUnit symbol) : Finds symbol (.error e : Outcome α) :=
  fun he => h (Except.error.inj he)

theorem ne {e : Failure} (h : Finds symbol (.error e : Outcome α)) : e ≠ .unknownUnit symbol :=
  fun he => h (congrArg Except.error he)

theorem bind {o : Outcome α} {f : α → Outcome β} (ho : Finds symbol o)
    (hf : ∀ x, Finds symbol (f x)) : Finds symbol (o >>= f) := by
  cases o with
  | error e => exact error ho.ne
  | ok x => exact hf x

theorem map {o : Outcome α} (ho : Finds symbol o) (f : α → β) : Finds symbol (o.map f) := by
  cases o with
  | error e => exact error ho.ne
  | ok x => exact ok (f x)

end Outcome.Finds

open Outcome (Finds)

/-- The symbol is that of a unit and can be written. -/
structure Units.Knows (u : Units) (symbol : String) : Prop where
  mem : symbol ∈ u.table
  resolves : (u.resolve? symbol).isSome = true

variable {symbol : String}

theorem finds_finite (v : Value) : Finds symbol (finite v) := by
  unfold finite
  split
  · exact .ok v
  · exact .error nofun

theorem Value.finds_multiply (a b : Value) : Finds symbol (a.multiply b) := by
  unfold multiply
  split
  · exact .ok _
  · exact .ok _
  · exact .error nofun

theorem Value.finds_power (a b : Value) : Finds symbol (a.power b) := by
  unfold power
  split
  · exact .ok _
  · exact .error nofun

theorem finds_convertMeasure (x : Float) (m m' : Measure) :
    Finds symbol (convertMeasure x m m') := by
  unfold convertMeasure
  split
  · exact .error nofun
  · split <;> exact .ok _

theorem finds_percentage (v : Value) : Finds symbol (percentage v) := by
  unfold percentage
  split
  · exact .ok _
  · exact .error nofun

theorem finds_unlessZero (x : Float) (v : Value) : Finds symbol (Units.unlessZero x v) := by
  unfold Units.unlessZero
  split
  · exact .error nofun
  · exact .ok v

namespace Units
variable {u : Units}

theorem Knows.measure (h : u.Knows symbol) (other : String) : Finds symbol (u.measure other) := by
  unfold Units.measure
  cases hget : u.table.get? other with
  | some m => exact .ok m
  | none =>
    refine .error ?_
    rintro ⟨⟩
    exact MeasureTable.not_mem_iff.2 hget h.mem

theorem Knows.amountIn (h : u.Knows symbol) (v : Value) (k : Kind) :
    Finds symbol (u.amountIn v k) := by
  unfold Units.amountIn
  split
  · exact .ok _
  · exact (h.measure _).bind fun m => (h.measure _).bind fun m' => finds_convertMeasure _ m m'
  · split
    · exact .ok _
    · split
      · exact .error nofun
      · next rates _ =>
        cases rates.convert v.amount _ _ with
        | error e => exact .error nofun
        | ok x => exact .ok x
  · exact .error nofun
  · exact .error nofun

theorem Knows.combine (h : u.Knows symbol) (verb : String) (op : Float → Float → Float)
    (a b : Value) : Finds symbol (u.combine verb op a b) := by
  unfold Units.combine
  split
  · exact .ok _
  · exact .ok _
  · have hamount := h.amountIn b a.kind
    split
    · exact .ok _
    · exact .error nofun
    · next e he =>
      rw [he] at hamount
      exact .error hamount.ne

theorem Knows.dividing (h : u.Knows symbol) (a b : Value) (f g : Float → Value) (c : UnitClash) :
    Finds symbol (u.dividing a b f g c) := by
  by_cases hb : b.kind = .number
  · rw [dividing_by_number hb]
    exact finds_unlessZero _ _
  by_cases ha : a.kind = .number
  · rw [dividing_number ha hb]
    exact .error nofun
  · rw [dividing_quantities ha hb]
    exact (h.amountIn b a.kind).bind fun y => finds_unlessZero _ _

theorem Knows.divide (h : u.Knows symbol) (a b : Value) : Finds symbol (u.divide a b) := by
  rw [divide_eq]
  exact h.dividing _ _ _ _ _

theorem Knows.remainder (h : u.Knows symbol) (a b : Value) : Finds symbol (u.remainder a b) := by
  rw [remainder_eq]
  exact h.dividing _ _ _ _ _

theorem Knows.ne_of_resolve? (h : u.Knows symbol) {word : String} (hword : u.resolve? word = none) :
    word ≠ symbol := by
  rintro rfl
  have hresolves := h.resolves
  rw [hword] at hresolves
  exact Bool.false_ne_true hresolves

theorem Knows.convertTo (h : u.Knows symbol) (v : Value) (word : String) :
    Finds symbol (u.convertTo v word) := by
  unfold Units.convertTo
  split
  · next hword =>
    refine .error ?_
    rintro ⟨⟩
    exact h.ne_of_resolve? hword rfl
  · split
    · exact .ok _
    · exact (h.amountIn v _).map _

theorem Knows.toRadians (h : u.Knows symbol) (v : Value) : Finds symbol (u.toRadians v) := by
  unfold Units.toRadians
  split
  · next own _ =>
    have hmeasure := h.measure own
    split
    · next e he =>
      rw [he] at hmeasure
      exact .error hmeasure.ne
    · split
      · exact (h.convertTo v "rad").map _
      · exact .ok v
  · exact .ok v

end Units

namespace Scope
variable {s : Scope}

theorem finds_quantity (h : s.units.Knows symbol) (v : Value) (word : String) :
    Finds symbol (s.quantity v word) := by
  unfold quantity
  split
  · exact Value.finds_multiply v _
  · split
    · exact h.convertTo v word
    · next hword =>
      split
      · exact Value.finds_multiply v _
      · refine .error ?_
        rintro ⟨⟩
        exact hword h.resolves

theorem finds_sumFrom (h : s.units.Knows symbol) (v : Value) (es : List Entry) :
    Finds symbol (s.sumFrom v es) := by
  induction es generalizing v with
  | nil => exact .ok v
  | cons e es ih =>
    have hadd : Finds symbol (s.units.add v e.result) := h.combine _ _ _ _
    unfold sumFrom
    cases hsum : s.units.add v e.result with
    | error f =>
      rw [hsum] at hadd
      exact .error hadd.ne
    | ok w => exact ih w

theorem finds_historySum (h : s.units.Knows symbol) : Finds symbol s.historySum := by
  unfold historySum
  split
  · exact .ok none
  · exact (s.finds_sumFrom h _ _).map some

theorem finds_recalled (h : s.units.Knows symbol) (r : Recall) : Finds symbol (s.recalled r) := by
  have hsum := s.finds_historySum h
  cases r with
  | previous =>
    unfold recalled
    dsimp only
    split
    · exact .ok _
    · exact .error nofun
  | sum =>
    unfold recalled
    dsimp only
    split
    · next e he =>
      rw [he] at hsum
      exact .error hsum.ne
    · exact .error nofun
    · exact .ok _
  | average =>
    unfold recalled
    dsimp only
    split
    · next e he =>
      rw [he] at hsum
      exact .error hsum.ne
    · exact .error nofun
    · exact h.divide _ _

theorem finds_binary (h : s.units.Knows symbol) (op : BinaryOp) (a b : Value) :
    Finds symbol (s.binary op a b) := by
  cases op with
  | add | subtract => exact h.combine _ _ _ _
  | multiply => exact a.finds_multiply b
  | divide => exact h.divide a b
  | remainder => exact h.remainder a b
  | power => exact a.finds_power b

theorem finds_call (h : s.units.Knows symbol) (f : Function) (v : Value) :
    Finds symbol (s.call f v) := by
  have hangle : Finds symbol (if f.takesAngle then s.units.toRadians v else .ok v) := by
    split
    · exact h.toRadians v
    · exact .ok v
  unfold call
  split
  · exact .ok _
  · split
    · next e he =>
      rw [he] at hangle
      exact .error hangle.ne
    · split
      · exact .ok _
      · exact .error nofun

end Scope

section
variable {s : Scope}

theorem Expr.finds_eval (h : s.units.Knows symbol) (e : Expr) : Finds symbol (e.eval s) := by
  fun_induction Expr.eval s e with
  | case1 x => exact finds_finite _
  | case2 e word ih => exact ih.bind fun v => (s.finds_quantity h v word).bind finds_finite
  | case3 word v hv => exact finds_finite v
  | case4 word hv => exact .error nofun
  | case5 r => exact (s.finds_recalled h r).bind finds_finite
  | case6 e ih => exact ih.bind fun v => finds_finite _
  | case7 op left e ihl ihr =>
    refine ihl.bind fun a => ihr.bind fun v => (finds_percentage v).bind fun x => ?_
    cases adjustment? op x with
    | some factor => exact finds_finite _
    | none => exact (finds_finite _).bind fun b => (s.finds_binary h op a b).bind finds_finite
  | case8 op left right hright ihl ihr =>
    exact ihl.bind fun a => ihr.bind fun b => (s.finds_binary h op a b).bind finds_finite
  | case9 e ih => exact ih.bind fun v => (finds_percentage v).bind fun x => finds_finite _
  | case10 e base ih ihb =>
    exact ih.bind fun v => (finds_percentage v).bind fun x => ihb.bind fun b => finds_finite _
  | case11 f e ih => exact ih.bind fun v => (s.finds_call h f v).bind finds_finite

theorem Statement.finds_eval (h : s.units.Knows symbol) (st : Statement) :
    Finds symbol (st.eval s) := by
  have hvalue := st.expression.finds_eval h
  unfold eval
  split
  · next e he =>
    rw [he] at hvalue
    exact .error hvalue.ne
  · next v _ =>
    split
    · exact .ok v
    · next target _ =>
      have hconverted := h.convertTo v target
      split
      · next e he =>
        rw [he] at hconverted
        exact .error hconverted.ne
      · exact finds_finite _

theorem Statement.finds_valueIn {m : Memory} {l : Locale} (h : (Scope.units ⟨m, l⟩).Knows symbol)
    (st : Statement) : Finds symbol (st.valueIn m l) := by
  unfold valueIn
  split
  · exact st.finds_eval h
  · split
    · exact .error nofun
    · exact st.finds_eval h

end

/-- Reading a text does not look at units. -/
theorem Statement.finds_ofInput (l : Locale) (text : String) :
    Finds symbol (Statement.ofInput l text) := by
  have hcheck : Finds symbol (checkInput text) := by
    unfold checkInput
    split
    · exact .error nofun
    · split
      · exact .error nofun
      · exact .ok ()
  have hnormal : ∀ cs, Finds symbol ((Reading.ofNormal l cs).bind (·.mapError .reading)) := by
    intro cs
    unfold Reading.ofNormal
    split
    · exact .error nofun
    · next ts _ =>
      unfold Reading.ofTokens
      split
      · exact .error nofun
      · cases Statement.parse l ts with
        | error e => exact .error nofun
        | ok st => exact .ok st
  unfold Statement.ofInput Reading.ofInput
  cases hinput : checkInput text with
  | error e =>
    rw [hinput] at hcheck
    exact .error hcheck.ne
  | ok _ => exact hnormal _

end Reckoner

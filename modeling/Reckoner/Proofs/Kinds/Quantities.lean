import Reckoner.Proofs.Kinds.Arithmetic
import Reckoner.Proofs.Measure.Stored

/-!
# Two quantities in arithmetic

The kinds of two quantities decide, with the tables, which of three relations they stand in: amounts
of the one can be told in the other (`Converts`), the two clash (`Clashing`), or they are currencies
one of which has no rate (`Unpriced`). The conversion behind all operators gives an amount in the
first case only (`Converts.amountIn` and the like), and what an operator does with two quantities is a
step behind that conversion. Zero is looked for behind it too.
-/

namespace Reckoner

/-- The outcome is a failure for units that do not go together. -/
def Outcome.Clashes {α : Type} (o : Outcome α) : Prop := ∃ c, o = .error (.clash c)

namespace Outcome.Clashes
variable {α β : Type} {o : Outcome α}

theorem bind (h : o.Clashes) (f : α → Outcome β) : Outcome.Clashes (o >>= f) := by
  obtain ⟨c, rfl⟩ := h
  exact ⟨c, rfl⟩

theorem map (h : o.Clashes) (f : α → β) : Outcome.Clashes (o.map f) := by
  obtain ⟨c, rfl⟩ := h
  exact ⟨c, rfl⟩

theorem reworded (h : o.Clashes) (c : UnitClash) :
    Outcome.Clashes (o.mapError (Failure.reworded c)) := by
  obtain ⟨_, rfl⟩ := h
  exact ⟨c, rfl⟩

theorem ne_divisionByZero (h : o.Clashes) : o ≠ .error .divisionByZero := by
  obtain ⟨c, rfl⟩ := h
  rintro ⟨⟩

end Outcome.Clashes

open Outcome (Clashes)

namespace Units
variable {u : Units} {a b v : Value} {k j : Kind} {f : Float → Float}

/-! ### How two kinds compare -/

/-- Units of different categories, or a unit and a currency. -/
inductive Clashing (u : Units) : Kind → Kind → Prop where
  | categories {s t : String} {m n : Measure} (source : u.table.get? s = some m)
      (target : u.table.get? t = some n) (differ : m.category ≠ n.category) :
      Clashing u (.unit s) (.unit t)
  | unitCurrency (s code : String) : Clashing u (.unit s) (.currency code)
  | currencyUnit (code s : String) : Clashing u (.currency code) (.unit s)

/-- An amount of the first kind comes to its image under the function in the second kind: units of one
category by their factors and offsets, currencies by their rates. -/
inductive Converts (u : Units) : Kind → Kind → (Float → Float) → Prop where
  | measures {s t : String} {m n : Measure} (source : u.table.get? s = some m)
      (target : u.table.get? t = some n) (category : m.category = n.category) :
      Converts u (.unit s) (.unit t) fun x =>
        if m.symbol = n.symbol then x else n.fromBase (m.toBase x)
  | sameCurrency (code : String) : Converts u (.currency code) (.currency code) id
  | currencies {s t : String} {rates : RateSet} {x y : Float} (differ : s ≠ t)
      (given : u.rates = some rates) (source : rates.rate? s = some x)
      (target : rates.rate? t = some y) :
      Converts u (.currency s) (.currency t) fun amount => amount * y / x

/-- Different currencies without rates for both. -/
inductive Unpriced (u : Units) : Kind → Kind → Prop where
  | currencies {s t : String} (differ : s ≠ t)
      (missing : ∀ rates, u.rates = some rates → rates.rate? s = none ∨ rates.rate? t = none) :
      Unpriced u (.currency s) (.currency t)

theorem Clashing.symm (h : u.Clashing k j) : u.Clashing j k := by
  cases h with
  | categories source target differ => exact .categories target source differ.symm
  | unitCurrency s code => exact .currencyUnit code s
  | currencyUnit code s => exact .unitCurrency s code

/-- Quantities of units in the table stand in one of the relations. -/
theorem clashing_or_converts_or_unpriced (hk : k.In (· ∈ u.table)) (hj : j.In (· ∈ u.table))
    (hk' : k ≠ .number) (hj' : j ≠ .number) :
    u.Clashing k j ∨ (∃ f, u.Converts k j f) ∨ u.Unpriced k j := by
  cases k with
  | number => exact absurd rfl hk'
  | unit s =>
    cases j with
    | number => exact absurd rfl hj'
    | currency t => exact .inl (.unitCurrency s t)
    | unit t =>
      obtain ⟨m, hm⟩ := Option.isSome_iff_exists.1 (hk s rfl)
      obtain ⟨n, hn⟩ := Option.isSome_iff_exists.1 (hj t rfl)
      by_cases hcategory : m.category = n.category
      · exact .inr (.inl ⟨_, .measures hm hn hcategory⟩)
      · exact .inl (.categories hm hn hcategory)
  | currency s =>
    cases j with
    | number => exact absurd rfl hj'
    | unit t => exact .inl (.currencyUnit s t)
    | currency t =>
      refine .inr ?_
      by_cases hst : s = t
      · subst hst
        exact .inl ⟨id, .sameCurrency s⟩
      · by_cases hrates : ∃ rates x y, u.rates = some rates ∧ rates.rate? s = some x ∧
            rates.rate? t = some y
        · obtain ⟨rates, x, y, hgiven, hx, hy⟩ := hrates
          exact .inl ⟨_, .currencies hst hgiven hx hy⟩
        · refine .inr (.currencies hst fun rates hgiven => ?_)
          cases hx : rates.rate? s with
          | none => exact .inl rfl
          | some x =>
            cases hy : rates.rate? t with
            | none => exact .inr rfl
            | some y => exact absurd ⟨rates, x, y, hgiven, hx, hy⟩ hrates

/-! ### The conversion -/

theorem measure_of_get? {s : String} {m : Measure} (h : u.table.get? s = some m) :
    u.measure s = .ok m := by
  rw [measure, h]

theorem amountIn_units {x : Float} {s t : String} {m n : Measure} (hm : u.table.get? s = some m)
    (hn : u.table.get? t = some n) : u.amountIn ⟨x, .unit s⟩ (.unit t) = convertMeasure x m n := by
  simp only [amountIn, measure_of_get? hm, measure_of_get? hn]
  rfl

theorem Clashing.amountIn (h : u.Clashing v.kind k) : Clashes (u.amountIn v k) := by
  obtain ⟨x, j⟩ := v
  cases h with
  | categories source target differ =>
    rw [amountIn_units source target, convertMeasure, if_pos differ]
    exact ⟨_, rfl⟩
  | unitCurrency | currencyUnit => exact ⟨_, rfl⟩

theorem Converts.amountIn (h : u.Converts v.kind k f) : u.amountIn v k = .ok (f v.amount) := by
  obtain ⟨x, j⟩ := v
  cases h with
  | measures source target category =>
    rw [amountIn_units source target, convertMeasure, if_neg (not_not_intro category)]
    split <;> rfl
  | sameCurrency code => exact if_pos rfl
  | currencies differ given source target =>
    simp [Units.amountIn, RateSet.convert, differ, given, source, target, Except.mapError]

theorem Unpriced.amountIn (h : u.Unpriced v.kind k) :
    ∃ code, u.amountIn v k = .error (.missingRate code) := by
  obtain ⟨x, j⟩ := v
  cases h with
  | @currencies s t differ missing =>
    simp only [Units.amountIn, if_neg differ]
    cases hgiven : u.rates with
    | none => exact ⟨s, rfl⟩
    | some rates =>
      simp only [RateSet.convert, if_neg differ]
      cases hs : rates.rate? s with
      | none => exact ⟨s, rfl⟩
      | some y =>
        have ht : rates.rate? t = none := (missing rates hgiven).resolve_left (by simp [hs])
        exact ⟨t, by simp [ht, Except.mapError]⟩

theorem Clashing.ne_number (h : u.Clashing k j) : k ≠ .number ∧ j ≠ .number := by
  cases h <;> exact ⟨nofun, nofun⟩

theorem Converts.ne_number (h : u.Converts k j f) : k ≠ .number ∧ j ≠ .number := by
  cases h <;> exact ⟨nofun, nofun⟩

/-! ### Operators -/

section
variable {g h : Float → Value} {c : UnitClash}

theorem dividing_of_clashing (hclash : u.Clashing b.kind a.kind) :
    Clashes (u.dividing a b g h c) := by
  rw [dividing_quantities hclash.ne_number.2 hclash.ne_number.1]
  exact hclash.amountIn.bind _

theorem dividing_of_converts (hf : u.Converts b.kind a.kind f) :
    u.dividing a b g h c = unlessZero (f b.amount) (h (f b.amount)) := by
  rw [dividing_quantities hf.ne_number.2 hf.ne_number.1, hf.amountIn]
  rfl

/-- The failure for a zero divisor comes from a number that is zero or a quantity that is zero once
it is converted, and from nothing else. -/
theorem dividing_eq_divisionByZero_iff (ha : a.kind.In (· ∈ u.table))
    (hb : b.kind.In (· ∈ u.table)) :
    u.dividing a b g h c = .error .divisionByZero ↔
      (b.kind = .number ∧ (b.amount == 0) = true) ∨
        ∃ f, u.Converts b.kind a.kind f ∧ (f b.amount == 0) = true := by
  constructor
  · intro hzero
    by_cases hbn : b.kind = .number
    · rw [dividing_by_number hbn, unlessZero_eq_error_iff] at hzero
      exact .inl ⟨hbn, hzero⟩
    · by_cases han : a.kind = .number
      · rw [dividing_number han hbn] at hzero
        cases hzero
      · rcases clashing_or_converts_or_unpriced hb ha hbn han with hclash | ⟨f, hf⟩ | hunpriced
        · exact absurd hzero (dividing_of_clashing hclash).ne_divisionByZero
        · rw [dividing_of_converts hf, unlessZero_eq_error_iff] at hzero
          exact .inr ⟨f, hf, hzero⟩
        · obtain ⟨code, hcode⟩ := hunpriced.amountIn
          rw [dividing_quantities han hbn, hcode] at hzero
          cases hzero
  · rintro (⟨hbn, hzero⟩ | ⟨f, hf, hzero⟩)
    · rw [dividing_by_number hbn, unlessZero_eq_error_iff, hzero]
    · rw [dividing_of_converts hf, unlessZero_eq_error_iff, hzero]

end

theorem multiply_clashes (ha : a.kind ≠ .number) (hb : b.kind ≠ .number) :
    Clashes (a.multiply b) := by
  obtain ⟨x, k⟩ := a
  obtain ⟨y, j⟩ := b
  cases k with
  | number => exact absurd rfl ha
  | _ =>
    cases j with
    | number => exact absurd rfl hb
    | _ => exact ⟨_, rfl⟩

theorem power_clashes (h : a.kind ≠ .number ∨ b.kind ≠ .number) : Clashes (a.power b) := by
  have hnumbers : (a.isNumber && b.isNumber) = false := by
    simpa [Value.isNumber, imp_iff_not_or] using h
  rw [Value.power, hnumbers]
  exact ⟨_, rfl⟩

theorem combine_clashes (verb : String) (op : Float → Float → Float)
    (h : u.Clashing b.kind a.kind) : Clashes (u.combine verb op a b) := by
  rw [SameKinds.combine_quantities h.ne_number.2 h.ne_number.1]
  exact (h.amountIn.map _).reworded _

theorem combine_of_converts (verb : String) (op : Float → Float → Float)
    (h : u.Converts b.kind a.kind f) :
    u.combine verb op a b = .ok (a.withAmount (op a.amount (f b.amount))) := by
  rw [SameKinds.combine_quantities h.ne_number.2 h.ne_number.1, h.amountIn]
  rfl

theorem convertTo_clashes {word : String} (hword : u.resolve? word = some k)
    (h : u.Clashing v.kind k) : Clashes (u.convertTo v word) := by
  have hnumber : v.isNumber = false := beq_false_of_ne h.ne_number.1
  simp only [convertTo, hword, hnumber]
  exact h.amountIn.map _

/-- What the operators do with two values of units that are in the table. Quantities that clash fail
all of them, and the conversion to the word of the other one; quantities that convert are added,
subtracted and divided in the unit of the left one; no two quantities are multiplied or raised to a
power; there is no fourth way for two quantities to compare; and a division is by zero exactly if its
divisor is a number that is zero or a quantity that converts to zero. -/
theorem arithmetic_of_quantities (u : Units) (a b : Value) (ha : a.kind.In (· ∈ u.table))
    (hb : b.kind.In (· ∈ u.table)) :
    (u.Clashing a.kind b.kind →
      (∀ o ∈ [u.add a b, u.subtract a b, a.multiply b, u.divide a b, u.remainder a b],
        Clashes o) ∧
      (u.resolve? b.label = some b.kind → Clashes (u.convertTo a b.label))) ∧
    (∀ f, u.Converts b.kind a.kind f →
      u.add a b = .ok ⟨a.amount + f b.amount, a.kind⟩ ∧
      u.subtract a b = .ok ⟨a.amount - f b.amount, a.kind⟩ ∧
      u.divide a b = unlessZero (f b.amount) ⟨a.amount / f b.amount, .number⟩ ∧
      u.remainder a b =
        unlessZero (f b.amount) ⟨Double.remainder a.amount (f b.amount), a.kind⟩) ∧
    (a.kind ≠ .number → b.kind ≠ .number →
      Clashes (a.multiply b) ∧ Clashes (a.power b) ∧
      (u.Clashing b.kind a.kind ∨ (∃ f, u.Converts b.kind a.kind f) ∨
        u.Unpriced b.kind a.kind)) ∧
    ∀ o ∈ [u.divide a b, u.remainder a b],
      o = .error .divisionByZero ↔
        (b.kind = .number ∧ (b.amount == 0) = true) ∨
          ∃ f, u.Converts b.kind a.kind f ∧ (f b.amount == 0) = true := by
  rw [divide_eq, remainder_eq]
  refine ⟨fun h => ⟨?_, fun hword => convertTo_clashes hword h⟩, fun f hf => ?_, fun hk hj => ?_, ?_⟩
  · simp only [List.forall_mem_cons, List.not_mem_nil, false_implies, implies_true, and_true]
    exact ⟨combine_clashes _ _ h.symm, combine_clashes _ _ h.symm,
      multiply_clashes h.ne_number.1 h.ne_number.2, dividing_of_clashing h.symm,
      dividing_of_clashing h.symm⟩
  · exact ⟨combine_of_converts _ _ hf, combine_of_converts _ _ hf, dividing_of_converts hf,
      dividing_of_converts hf⟩
  · exact ⟨multiply_clashes hk hj, power_clashes (.inl hk),
      clashing_or_converts_or_unpriced hb ha hj hk⟩
  · simp only [List.forall_mem_cons, List.not_mem_nil, false_implies, implies_true, and_true]
    exact ⟨dividing_eq_divisionByZero_iff ha hb, dividing_eq_divisionByZero_iff ha hb⟩

/-- Kelvins are not divided by absolute zero in degrees Celsius. -/
theorem divide_kelvin_absoluteZero :
    (Kind.unit "K").In (· ∈ MeasureTable.builtin) ∧ (Kind.unit "C").In (· ∈ MeasureTable.builtin) ∧
      (Units.mk .builtin none .english).divide ⟨300, .unit "K"⟩ ⟨-273.15, .unit "C"⟩ =
        .error .divisionByZero := by
  have hK : MeasureTable.builtin.get? "K" = some ⟨"K", .temperature, 1, 0⟩ := by decide +kernel
  have hC : MeasureTable.builtin.get? "C" = some ⟨"C", .temperature, 1, 273.15⟩ := by
    decide +kernel
  have hin : ∀ s m, MeasureTable.builtin.get? s = some m →
      (Kind.unit s).In (· ∈ MeasureTable.builtin) := by
    rintro s m hs _ ⟨⟩
    exact MeasureTable.mem_of_get? hs
  have h := arithmetic_of_quantities (Units.mk .builtin none .english) ⟨300, .unit "K"⟩
    ⟨-273.15, .unit "C"⟩ (hin _ _ hK) (hin _ _ hC)
  refine ⟨hin _ _ hK, hin _ _ hC, (h.2.2.2 _ List.mem_cons_self).2 (.inr ⟨_, .measures hC hK rfl, ?_⟩)⟩
  decide +kernel

end Units

end Reckoner

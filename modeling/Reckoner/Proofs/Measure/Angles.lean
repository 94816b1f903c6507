import Reckoner.Proofs.Double.Neutral
import Reckoner.Proofs.Kinds.Quantities
import Reckoner.Proofs.Measure.Growth

/-!
# Angles in radians

The functions of angles have their argument converted to the unit that the word `rad` names. In every
table that units were added to this is the unit with the symbol `rad`, but it may be an added one. As
long as it is the built-in radian, every angle comes to its amount in the base unit (`toRadians_angle`
and `same_toBase_radian`); with a unit of another category there every angle is refused, and with an angle of
another factor one such angle is taken for one radian.
-/

namespace Reckoner

/-- The doubles are the same number, though perhaps zeros of different signs. -/
def Double.Same (x y : Float) : Prop := x = y ∨ (x == 0) = true ∧ (y == 0) = true

theorem Double.same_add_zero (x : Float) : Same x (x + 0) := by
  rcases Double.add_zero x with h | h
  · exact .inl h.symm
  · have hx : x = -0 := (pack_eq_of_unpack h.symm).symm
    subst hx
    exact .inr ⟨by decide +kernel, by decide +kernel⟩

theorem Double.eq_of_same_one {x : Float} (h : Same 1 x) : x = 1 := by
  rcases h with h | ⟨h, -⟩
  · exact h.symm
  · exact absurd h (by decide +kernel)

namespace Measure

/-- The unit of angles that the trigonometric functions take. -/
def radian : Measure := ⟨"rad", .angle, 1, 0⟩

theorem fromBase_radian (x : Float) : radian.fromBase x = x := by
  show (x - 0) / 1 = x
  rw [Double.sub_zero, Double.div_one]

theorem same_toBase_radian (x : Float) : Double.Same x (radian.toBase x) := by
  show Double.Same x (x * 1 + 0)
  rw [Double.mul_one]
  exact Double.same_add_zero x

/-- The unit `rad` is the radian if one of it is one base unit. -/
theorem eq_radian {m : Measure} (hsymbol : m.symbol = "rad") (hcategory : m.category = .angle)
    (hoffset : m.offset = 0) (hfinite : m.factor.isFinite = true) (hpos : 0 < m.factor)
    (h : Double.Same 1 (m.toBase 1)) : m = radian := by
  have hbase : m.toBase 1 = m.factor := by
    rw [toBase, hoffset, Double.mul_comm, Double.mul_one, Double.add_zero_of_pos hfinite hpos]
  have hfactor : m.factor = 1 := Double.eq_of_same_one (hbase ▸ h)
  obtain ⟨symbol, category, factor, offset⟩ := m
  cases hsymbol
  cases hcategory
  cases hoffset
  cases hfactor
  rfl

end Measure

namespace Scope
open MeasureTable (builtin coherent_builtin)

variable {s : Scope} {v : Value} {x : Float} {symbol : String} {m r : Measure}

theorem toRadians_of_not_angle
    (h : v.kind.In fun symbol => ∃ m, s.memory.table.get? symbol = some m ∧ m.category ≠ .angle) :
    s.units.toRadians v = .ok v := by
  obtain ⟨x, k⟩ := v
  cases k with
  | number | currency => rfl
  | unit symbol =>
    obtain ⟨m, hm, hcategory⟩ := h symbol rfl
    have hmeasure : s.units.measure symbol = .ok m := Units.measure_of_get? hm
    simp only [Units.toRadians, hmeasure, if_neg hcategory]

section
variable (h : builtin.Grows s.memory.table) (hl : s.locale ∈ Locale.catalog)
include h

theorem exists_rad : ∃ r, s.memory.table.get? "rad" = some r := by
  have hbuiltin : "rad" ∈ builtin := by decide +kernel
  exact Option.isSome_iff_exists.1 ((h.coherent coherent_builtin).builtin "rad" hbuiltin)

include hl

theorem resolve?_rad (hr : s.memory.table.get? "rad" = some r) :
    s.units.resolve? "rad" = some (.unit "rad") := by
  have hnone : ∀ l ∈ Locale.catalog, l.unitAlias "rad" = none := by decide +kernel
  have ht := h.coherent coherent_builtin
  have hlookup : s.units.table.lookup? s.units.locale "rad" = some r :=
    ht.lookup?_symbol (hnone s.locale hl) hr
  rw [Units.resolve?, hlookup]
  show some (Kind.unit r.symbol) = _
  rw [ht.sound.keyed hr]

/-- An angle is converted to whatever has the symbol `rad`. -/
theorem toRadians_angle (hr : s.memory.table.get? "rad" = some r)
    (hm : s.memory.table.get? symbol = some m) (hcategory : m.category = .angle) :
    s.units.toRadians ⟨x, .unit symbol⟩ =
      if r.category = .angle then
        .ok (.number (if symbol = "rad" then x else r.fromBase (m.toBase x)))
      else .error (.clash (.categories symbol "angle" "rad" r.category.text)) := by
  have ht := h.coherent coherent_builtin
  have hmeasure : s.units.measure symbol = .ok m := Units.measure_of_get? hm
  have hconvert : s.units.amountIn ⟨x, .unit symbol⟩ (.unit "rad") = convertMeasure x m r :=
    Units.amountIn_units hm hr
  have hnumber : Value.isNumber ⟨x, .unit symbol⟩ = false := rfl
  simp only [Units.toRadians, hmeasure, Units.convertTo, resolve?_rad h hl hr, hnumber, hconvert,
    convertMeasure, hcategory, ht.sound.keyed hm, ht.sound.keyed hr]
  by_cases hangle : r.category = .angle
  · rw [if_neg (not_not_intro hangle.symm), if_pos hangle]
    by_cases hsymbol : symbol = "rad"
    · rw [if_pos hsymbol, if_pos hsymbol]
      rfl
    · rw [if_neg hsymbol, if_neg hsymbol]
      rfl
  · rw [if_pos (Ne.symm hangle), if_neg hangle]
    rfl

theorem call_angle {f : Function} (hf : f.takesAngle = true)
    (hm : s.memory.table.get? symbol = some m) (hcategory : m.category = .angle) :
    s.call f ⟨x, .unit symbol⟩ =
      (s.units.toRadians ⟨x, .unit symbol⟩).map fun v => .number (f.apply v.amount) := by
  obtain ⟨r, hr⟩ := exists_rad h
  have hkeeps : f.keepsUnit = false := by cases f <;> first | rfl | cases hf
  rw [call, hkeeps, if_neg Bool.false_ne_true, hf, if_pos rfl, toRadians_angle h hl hr hm hcategory]
  by_cases hangle : r.category = .angle
  · rw [if_pos hangle]
    rfl
  · rw [if_neg hangle]
    rfl

end

/-- In a table that the built-in one grows to, and in every locale, values that are no angles are left
as they are, and an angle is converted to the unit with the symbol `rad`, before a function of angles
too. This gives its amount in the base unit, up to the sign of a zero, exactly if that unit is the
radian or there are no angles left. -/
theorem toRadians_of_grows (s : Scope) (h : builtin.Grows s.memory.table)
    (hl : s.locale ∈ Locale.catalog) :
    (∀ v : Value, v.kind.In (fun symbol =>
        ∃ m, s.memory.table.get? symbol = some m ∧ m.category ≠ .angle) →
      s.units.toRadians v = .ok v) ∧
    ∃ r, s.memory.table.get? "rad" = some r ∧
      (∀ x symbol m, s.memory.table.get? symbol = some m → m.category = .angle →
        s.units.toRadians ⟨x, .unit symbol⟩ =
          (if r.category = .angle then
            .ok (.number (if symbol = "rad" then x else r.fromBase (m.toBase x)))
          else .error (.clash (.categories symbol "angle" "rad" r.category.text))) ∧
        ∀ f : Function, f.takesAngle = true → s.call f ⟨x, .unit symbol⟩ =
          (s.units.toRadians ⟨x, .unit symbol⟩).map fun v => .number (f.apply v.amount)) ∧
      ((∀ x symbol m, s.memory.table.get? symbol = some m → m.category = .angle →
          ∃ y, s.units.toRadians ⟨x, .unit symbol⟩ = .ok (.number y) ∧
            Double.Same y (m.toBase x)) ↔
        r = .radian ∨ ∀ symbol m, s.memory.table.get? symbol = some m → m.category ≠ .angle) := by
  obtain ⟨r, hr⟩ := exists_rad h
  have ht := h.coherent coherent_builtin
  refine ⟨fun v => toRadians_of_not_angle, r, hr, fun x symbol m hm hcategory =>
    ⟨toRadians_angle h hl hr hm hcategory, fun f hf => call_angle h hl hf hm hcategory⟩, ?_, ?_⟩
  · intro hright
    by_cases hangle : r.category = .angle
    · -- one of the unit itself is what tells its factor
      obtain ⟨y, hy, hsame⟩ := hright 1 "rad" r hr hangle
      rw [toRadians_angle h hl hr hr hangle, if_pos hangle, if_pos rfl] at hy
      cases hy
      obtain ⟨hfinite, hpos⟩ := ht.factor hr
      have hoffset := h.offset_eq_zero hr (by rw [hangle]; decide)
      exact .inl (Measure.eq_radian (ht.sound.keyed hr) hangle hoffset hfinite hpos hsame)
    · refine .inr fun symbol m hm hcategory => ?_
      obtain ⟨y, hy, -⟩ := hright 1 symbol m hm hcategory
      rw [toRadians_angle h hl hr hm hcategory, if_neg hangle] at hy
      cases hy
  · rintro (rfl | hnone) x symbol m hm hcategory
    · rw [toRadians_angle h hl hr hm hcategory, if_pos (c := Measure.radian.category = .angle) rfl]
      refine ⟨_, rfl, ?_⟩
      split
      · next hsymbol =>
        subst hsymbol
        cases hm.symm.trans hr
        exact Measure.same_toBase_radian x
      · rw [Measure.fromBase_radian]
        exact .inl rfl
    · exact absurd hcategory (hnone symbol m hm)

/-- Half a turn in degrees comes to half a turn in radians. -/
theorem toRadians_of_grows_halfTurn :
    ∃ y, (Scope.mk .new .english).units.toRadians ⟨180, .unit "deg"⟩ = .ok (.number y) ∧
      Double.Same y 3.141592653589793 := by
  have hrad : builtin.get? "rad" = some .radian := by decide +kernel
  have hdeg : builtin.get? "deg" = some ⟨"deg", .angle, 3.141592653589793 / 180, 0⟩ := by
    decide +kernel
  have hbase : Measure.toBase ⟨"deg", .angle, 3.141592653589793 / 180, 0⟩ 180 = 3.141592653589793 := by
    decide +kernel
  obtain ⟨-, r, hr, -, hright⟩ := toRadians_of_grows ⟨.new, .english⟩ .refl (by decide)
  cases hr.symm.trans hrad
  obtain ⟨y, hy, hsame⟩ := hright.2 (.inl rfl) 180 "deg" _ hdeg rfl
  exact ⟨y, hy, hbase ▸ hsame⟩

/-- With a length named like the radian a right angle is refused. -/
theorem toRadians_of_grows_length :
    ∃ t, builtin.addCustom .length "rad" 2 = .ok t ∧
      (Scope.mk { Memory.new with table := t } .english).units.toRadians ⟨90, .unit "deg"⟩ =
        .error (.clash (.categories "deg" "angle" "rad" "length")) ∧
      (Scope.mk .new .english).units.toRadians ⟨90, .unit "deg"⟩ =
        .ok (.number 1.5707963267948966) := by
  have hadded : builtin.addCustom .length "rad" 2 =
      .ok (builtin.register ⟨"rad", .length, 2, 0⟩ []) := by rfl
  have hrad : builtin.get? "rad" = some .radian := by decide +kernel
  have hdeg : builtin.get? "deg" = some ⟨"deg", .angle, 3.141592653589793 / 180, 0⟩ := by
    decide +kernel
  have hnewrad : (builtin.register ⟨"rad", .length, 2, 0⟩ []).get? "rad" =
      some ⟨"rad", .length, 2, 0⟩ := by
    rw [MeasureTable.get?_register, if_pos rfl]
  have hnewdeg : (builtin.register ⟨"rad", .length, 2, 0⟩ []).get? "deg" =
      some ⟨"deg", .angle, 3.141592653589793 / 180, 0⟩ := by
    rw [MeasureTable.get?_register, if_neg (by decide), hdeg]
  refine ⟨_, hadded, ?_, ?_⟩
  · rw [toRadians_angle (.add .refl hadded) (by decide) hnewrad hnewdeg rfl]
    rfl
  · rw [toRadians_angle .refl (by decide) hrad hdeg rfl]
    decide +kernel

end Scope

end Reckoner

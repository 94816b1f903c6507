import Mathlib.Algebra.BigOperators.Group.List.Basic
import Mathlib.Tactic.LinearCombination
import Reckoner.Proofs.Exact.Conversion

/-!
# The order of a sum

A sum is told in the unit of its first quantity, and each further one brings its amount in the base less
the offset of that unit (`base_foldlM_add`). Only temperatures have an offset, and no two of them the same.
So the sum of quantities that are no temperatures is independent of their order, and a sum of temperatures
only of the order behind the first one (`total_of_perm`).
-/

namespace Reckoner

open MeasureTable (builtin coherent_builtin)

/-! ### Offsets -/

namespace MeasureTable
variable {t : MeasureTable} {a b : String} {m n : Measure}

theorem eq_of_offset_eq : ∀ m ∈ Measure.catalog.map Prod.fst, ∀ n ∈ Measure.catalog.map Prod.fst,
    m.category = .temperature → n.category = .temperature →
      m.gauge.offset = n.gauge.offset → m = n := by
  decide +kernel

theorem Grows.offset_eq_iff (h : builtin.Grows t) (hm : t.get? a = some m) (hn : t.get? b = some n)
    (hcategory : m.category = n.category) :
    m.gauge.offset = n.gauge.offset ↔ m.category ≠ .temperature ∨ a = b := by
  have hsound := (h.coherent coherent_builtin).sound
  by_cases htemperature : m.category = .temperature
  · constructor
    · intro hoffset
      have heq := eq_of_offset_eq m (h.mem_catalog hm htemperature) n
        (h.mem_catalog hn (hcategory ▸ htemperature)) htemperature (hcategory ▸ htemperature) hoffset
      exact .inr (by rw [← hsound.keyed hm, heq, hsound.keyed hn])
    · rintro (hother | rfl)
      · exact absurd htemperature hother
      · rw [Option.some.inj (hm.symm.trans hn)]
  · have hother : n.category ≠ .temperature := hcategory ▸ htemperature
    simp [Measure.gauge, h.offset_eq_zero hm htemperature, h.offset_eq_zero hn hother, htemperature]

end MeasureTable

namespace Numbers
variable {u : Units} {g g' : Gauge} {j k : Kind} {a b v : Quantity ℚ} {vs ws : List (Quantity ℚ)}

theorem offset_eq_iff (h : u.Regular) (hj : u.gauge? j = some g) (hk : u.gauge? k = some g')
    (hdimension : g.dimension = g'.dimension) :
    g.offset = g'.offset ↔ g.dimension ≠ .category .temperature ∨ j = k := by
  cases Units.alike_of_gauge? hj hk hdimension with
  | units source target category =>
    rw [h.table.offset_eq_iff source target category]
    simp [Measure.gauge]
  | currencies _ _ _ => simp [Gauge.ofRate]

/-! ### Sums in the base -/

/-- The amount of a quantity in the base of its dimension. -/
def base (u : Units) (v : Quantity ℚ) : ℚ := ((u.gauge? v.kind).map (·.toBase v.amount)).getD 0

theorem base_eq (hg : u.gauge? v.kind = some g) : base u v = g.toBase v.amount := by
  rw [base, hg]
  rfl

theorem amountIn_base (h : u.Regular) (hv : u.gauge? v.kind = some g) (hk : u.gauge? k = some g')
    (hdimension : g.dimension = g'.dimension) :
    rationals.amountIn u v k = .ok (g'.fromBase (base u v)) := by
  rw [base_eq hv]
  exact amountIn_eq h hv hk hdimension v.amount

theorem add_eq (h : u.Regular) (ha : u.gauge? a.kind = some g) (hb : u.gauge? b.kind = some g')
    (hdimension : g.dimension = g'.dimension) :
    rationals.add u a b = .ok ⟨a.amount + g.fromBase (base u b), a.kind⟩ := by
  have hamount := amountIn_base h hb ha hdimension.symm
  obtain ⟨x, j⟩ := a
  obtain ⟨y, k⟩ := b
  cases j with
  | number => cases ha
  | _ =>
    cases k with
    | number => cases hb
    | _ =>
      simp only [add, hamount]
      rfl

theorem base_add (hg : g.factor ≠ 0) (ha : u.gauge? a.kind = some g) (y : ℚ) :
    base u ⟨a.amount + g.fromBase y, a.kind⟩ = base u a + y - g.offset := by
  rw [base_eq ha, base_eq (v := ⟨a.amount + g.fromBase y, a.kind⟩) ha]
  have hback : (g.fromBase y) * g.factor = y - g.offset := div_mul_cancel₀ _ hg
  simp only [Gauge.toBase]
  linear_combination hback

/-- Every quantity behind the first one adds its base amount less the offset of the first one's unit. -/
theorem base_foldlM_add (h : u.Regular) (hv : u.gauge? v.kind = some g)
    (hvs : ∀ w ∈ vs, u.dimension? w.kind = some g.dimension) :
    ∃ z, vs.foldlM (rationals.add u) v = .ok z ∧ z.kind = v.kind ∧
      base u z = base u v + (vs.map (base u)).sum - vs.length * g.offset := by
  induction vs generalizing v with
  | nil => exact ⟨v, rfl, rfl, by simp⟩
  | cons w vs ih =>
    obtain ⟨hw, hvs⟩ := List.forall_mem_cons.1 hvs
    obtain ⟨g', hg', hdimension⟩ := Option.map_eq_some_iff.1 hw
    obtain ⟨z, hz, hkind, hbase⟩ := ih (v := ⟨v.amount + g.fromBase (base u w), v.kind⟩) hv hvs
    refine ⟨z, ?_, hkind, ?_⟩
    · rw [List.foldlM_cons, add_eq h hv hg' hdimension.symm]
      exact hz
    · rw [hbase, base_add (factor_ne_zero h hv) hv, List.map_cons, List.sum_cons, List.length_cons]
      push_cast
      ring

/-! ### The order -/

theorem fromBase_inj (hg : g.factor ≠ 0) {x y : ℚ} : g.fromBase x = g.fromBase y ↔ x = y :=
  ⟨fun h => by rw [← Gauge.toBase_fromBase hg x, h, Gauge.toBase_fromBase hg], congrArg _⟩

theorem total_eq (h : u.Regular) (hv : u.gauge? v.kind = some g)
    (hvs : ∀ w ∈ vs, u.dimension? w.kind = some g.dimension) (hk : u.gauge? k = some g')
    (hdimension : g.dimension = g'.dimension) :
    ∃ z, rationals.total u (v :: vs) = .ok (some z) ∧ rationals.amountIn u z k =
      .ok (g'.fromBase (((v :: vs).map (base u)).sum - vs.length * g.offset)) := by
  obtain ⟨z, hz, hkind, hbase⟩ := base_foldlM_add h hv hvs
  refine ⟨z, ?_, ?_⟩
  · rw [total, hz]
    rfl
  · rw [amountIn_base h (hkind ▸ hv) hk hdimension, hbase, List.map_cons, List.sum_cons]

/-- The totals in two orders, told in one kind, are the same except for temperatures in different units. -/
theorem total_eq_total_iff (h : u.Regular) (hk : u.gauge? k = some g) (hperm : (a :: vs).Perm (b :: ws))
    (hvs : ∀ v ∈ a :: vs, u.dimension? v.kind = some g.dimension) :
    ∃ y z x x', rationals.total u (a :: vs) = .ok (some y) ∧
      rationals.total u (b :: ws) = .ok (some z) ∧
      rationals.amountIn u y k = .ok x ∧ rationals.amountIn u z k = .ok x' ∧
      (x = x' ↔ g.dimension ≠ .category .temperature ∨ a.kind = b.kind) := by
  obtain ⟨ha, hvs'⟩ := List.forall_mem_cons.1 hvs
  obtain ⟨hb, hws'⟩ := List.forall_mem_cons.1 fun w hw => hvs w (hperm.mem_iff.2 hw)
  obtain ⟨ga, hga, hda⟩ := Option.map_eq_some_iff.1 ha
  obtain ⟨gb, hgb, hdb⟩ := Option.map_eq_some_iff.1 hb
  obtain ⟨y, hy, hx⟩ := total_eq h hga (hda ▸ hvs') hk hda
  obtain ⟨z, hz, hx'⟩ := total_eq h hgb (hdb ▸ hws') hk hdb
  have hlength : vs.length = ws.length := Nat.succ.inj hperm.length_eq
  have hoffsets := offset_eq_iff h hga hgb (hda.trans hdb.symm)
  refine ⟨y, z, _, _, hy, hz, hx, hx', ?_⟩
  rw [fromBase_inj (factor_ne_zero h hk), (hperm.map (base u)).sum_eq, sub_right_inj, hlength, ← hda,
    ← hoffsets]
  refine ⟨fun heq => ?_, fun heq => by rw [heq]⟩
  rcases mul_eq_mul_left_iff.1 heq with heq | hnone
  · exact heq
  · -- One quantity alone has the same order only with itself.
    obtain rfl := List.length_eq_zero_iff.1 (Nat.cast_eq_zero.1 hnone)
    obtain rfl := List.length_eq_zero_iff.1 (hlength.trans (Nat.cast_eq_zero.1 hnone))
    exact hoffsets.2 (.inr (by rw [List.singleton_perm_singleton.1 hperm]))

theorem total_pair {y : Quantity ℚ} :
    rationals.total u [a, b] = .ok (some y) ↔ rationals.add u a b = .ok y := by
  cases h : rationals.add u a b <;> simp [total, List.foldlM, h, Except.map]

/-- For two quantities of one dimension, and for the total of any, in every two orders: the sums told in
one kind are the same except for temperatures whose first one is in different units. -/
theorem total_of_perm (h : u.Regular) {d : Dimension} (hk : u.dimension? k = some d) :
    (∀ a b : Quantity ℚ, u.dimension? a.kind = some d → u.dimension? b.kind = some d →
      ∃ y z x x', rationals.add u a b = .ok y ∧ rationals.add u b a = .ok z ∧
        rationals.amountIn u y k = .ok x ∧ rationals.amountIn u z k = .ok x' ∧
        (x = x' ↔ d ≠ .category .temperature ∨ a.kind = b.kind)) ∧
    ∀ (a b : Quantity ℚ) (vs ws : List (Quantity ℚ)), (a :: vs).Perm (b :: ws) →
      (∀ v ∈ a :: vs, u.dimension? v.kind = some d) →
      ∃ y z x x', rationals.total u (a :: vs) = .ok (some y) ∧
        rationals.total u (b :: ws) = .ok (some z) ∧
        rationals.amountIn u y k = .ok x ∧ rationals.amountIn u z k = .ok x' ∧
        (x = x' ↔ d ≠ .category .temperature ∨ a.kind = b.kind) := by
  obtain ⟨g, hg, rfl⟩ := Option.map_eq_some_iff.1 hk
  refine ⟨fun a b ha hb => ?_, fun a b vs ws hperm hvs => total_eq_total_iff h hg hperm hvs⟩
  have hvs : ∀ v ∈ [a, b], u.dimension? v.kind = some g.dimension := by simp [ha, hb]
  obtain ⟨y, z, x, x', hy, hz, hx⟩ := total_eq_total_iff h hg (.swap b a []) hvs
  exact ⟨y, z, x, x', total_pair.1 hy, total_pair.1 hz, hx⟩

/-- Lengths in three units come to the same number of miles in another order. -/
theorem total_of_perm_miles : ∃ y z x,
    rationals.total ⟨builtin, none, .english⟩
      [⟨1, .unit "km"⟩, ⟨200, .unit "m"⟩, ⟨3, .unit "mi"⟩] = .ok (some y) ∧
    rationals.total ⟨builtin, none, .english⟩
      [⟨3, .unit "mi"⟩, ⟨1, .unit "km"⟩, ⟨200, .unit "m"⟩] = .ok (some z) ∧
    rationals.amountIn ⟨builtin, none, .english⟩ y (.unit "mi") = .ok x ∧
    rationals.amountIn ⟨builtin, none, .english⟩ z (.unit "mi") = .ok x := by
  have hregular : (Units.mk builtin none .english).Regular := ⟨.refl, by rintro s ⟨⟩⟩
  have hlengths : ∀ symbol ∈ ["km", "m", "mi"],
      (Units.mk builtin none .english).dimension? (.unit symbol) = some (.category .length) := by
    decide +kernel
  simp only [List.forall_mem_cons] at hlengths
  obtain ⟨hkm, hm, hmi, -⟩ := hlengths
  have hperm : ∀ v w z : Quantity ℚ, [v, w, z].Perm [z, v, w] :=
    fun v w z => List.perm_append_singleton z [v, w]
  obtain ⟨y, z, x, x', hy, hz, hx, hx', hiff⟩ :=
    (total_of_perm hregular hmi).2 ⟨1, .unit "km"⟩ ⟨3, .unit "mi"⟩ [⟨200, .unit "m"⟩, _] _
      (hperm ..) (by simp [hkm, hm, hmi])
  cases hiff.2 (.inl (by decide))
  exact ⟨y, z, x, hy, hz, hx, hx'⟩

/-- Zero degrees Celsius and zero kelvins: told in kelvins, their sum is zero in one order only, with or
without rounding. -/
theorem total_of_perm_celsius :
    (rationals.add ⟨builtin, none, .english⟩ ⟨0, .unit "C"⟩ ⟨0, .unit "K"⟩ >>=
        fun v => rationals.amountIn ⟨builtin, none, .english⟩ v (.unit "K")) = .ok 0 ∧
      (rationals.add ⟨builtin, none, .english⟩ ⟨0, .unit "K"⟩ ⟨0, .unit "C"⟩ >>=
        fun v => rationals.amountIn ⟨builtin, none, .english⟩ v (.unit "K")) =
          .ok (Double.rational 273.15) ∧
      Double.rational 273.15 ≠ 0 ∧
      ((Units.mk builtin none .english).add ⟨0, .unit "C"⟩ ⟨0, .unit "K"⟩ >>=
        fun v => (Units.mk builtin none .english).amountIn v (.unit "K")) = .ok 0 ∧
      ((Units.mk builtin none .english).add ⟨0, .unit "K"⟩ ⟨0, .unit "C"⟩ >>=
        fun v => (Units.mk builtin none .english).amountIn v (.unit "K")) = .ok 273.15 := by
  decide +kernel

end Numbers

end Reckoner

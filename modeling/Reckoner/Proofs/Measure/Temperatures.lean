import Reckoner.Proofs.Double.Neutral
import Reckoner.Proofs.Kinds.Quantities
import Reckoner.Proofs.Measure.Growth

/-!
# Temperatures in tables that units are added to

A unit that is added must not be a temperature, but it may have any name, that of a temperature too.
Then it takes the place of the built-in unit: under the name of an addition stands the last one of that
name, and everything else is as it was (`get?_addAll`). So the temperatures that no addition is named
for keep their units and the conversions between them, and the others lose both: their conversions
differ at zero, where the offsets of the built-in units show and an added unit has none.
-/

namespace Reckoner

open Settings (Admits addCustom_eq_ok)

namespace MeasureTable
variable {t u : MeasureTable} {l : Locale} {a b symbol : String} {m n : Measure}
  {adds : List (Category × String × Float)}

/-! ### Additions -/

/-- Adds units one after the other: category, name and factor of each. -/
def addAll (t : MeasureTable) (adds : List (Category × String × Float)) :
    Except MeasureFault MeasureTable :=
  adds.foldlM (fun t a => t.addCustom a.1 a.2.1 a.2.2) t

theorem addAll_cons_eq_ok {add : Category × String × Float} (h : t.addAll (add :: adds) = .ok u) :
    ∃ v, t.addCustom add.1 add.2.1 add.2.2 = .ok v ∧ v.addAll adds = .ok u :=
  bind_eq_ok_iff.1 h

theorem Grows.addAll {v : MeasureTable} (h : t.Grows u) (hadds : u.addAll adds = .ok v) :
    t.Grows v := by
  induction adds generalizing u with
  | nil =>
    cases hadds
    exact h
  | cons add adds ih =>
    obtain ⟨w, hadd, hrest⟩ := addAll_cons_eq_ok hadds
    exact ih (h.add hadd) hrest

/-- Under the name of an addition stands an addition, under any other symbol what was there. -/
theorem get?_addAll (h : t.addAll adds = .ok u) (symbol : String) :
    (symbol ∉ adds.map (·.2.1) ∧ u.get? symbol = t.get? symbol) ∨
      symbol ∈ adds.map (·.2.1) ∧ ∃ m, u.get? symbol = some m ∧ Admits m ∧ m.offset = 0 := by
  induction adds generalizing t with
  | nil =>
    cases h
    exact .inl ⟨List.not_mem_nil, rfl⟩
  | cons add adds ih =>
    obtain ⟨category, name, factor⟩ := add
    obtain ⟨v, hadd, hrest⟩ := addAll_cons_eq_ok h
    obtain ⟨hadmits, rfl⟩ := addCustom_eq_ok hadd
    rcases ih hrest with ⟨hnot, hget⟩ | ⟨hmem, hnew⟩
    · rw [get?_register] at hget
      split at hget
      · next hname => exact .inr ⟨List.mem_cons.2 (.inl hname.symm), _, hget, hadmits, rfl⟩
      · next hname => exact .inl ⟨List.not_mem_cons_of_ne_of_not_mem (Ne.symm hname) hnot, hget⟩
    · exact .inr ⟨List.mem_cons_of_mem _ hmem, hnew⟩

end MeasureTable

namespace Settings
open MeasureTable (addAll)

/-- The units of the settings as additions to a table. -/
def additions (f : Settings) : List (Category × String × Float) :=
  f.customUnits.entries.flatMap fun c => c.2.entries.map fun e => (.ofName c.1, e.1, e.2)

theorem addAll_of_enterUnits {category : String} : ∀ {units : List (String × Float)}
    {t t' : MeasureTable}, enterUnits category t units = .ok t' →
      t.addAll (units.map fun e => (.ofName category, e.1, e.2)) = .ok t'
  | [], _, _, h => by
    cases h
    rfl
  | (name, factor) :: units, t, t', h => by
    rw [enterUnits] at h
    refine bind_eq_ok_iff.2 ?_
    cases hadd : t.addCustom (.ofName category) name factor with
    | error e =>
      rw [hadd] at h
      cases h
    | ok v =>
      rw [hadd] at h
      exact ⟨v, hadd, addAll_of_enterUnits h⟩

theorem addAll_of_enterCategories : ∀ {categories : List (String × Dictionary Float)}
    {t t' : MeasureTable}, enterCategories t categories = .ok t' →
      t.addAll (categories.flatMap fun c => c.2.entries.map fun e => (.ofName c.1, e.1, e.2)) =
        .ok t'
  | [], _, _, h => by
    cases h
    rfl
  | (category, units) :: rest, t, t', h => by
    rw [enterCategories] at h
    rw [List.flatMap_cons, addAll, List.foldlM_append]
    refine bind_eq_ok_iff.2 ?_
    cases henter : enterUnits category t units.entries with
    | error e =>
      rw [henter] at h
      cases h
    | ok v =>
      rw [henter] at h
      exact ⟨v, addAll_of_enterUnits henter, addAll_of_enterCategories h⟩

theorem Prepares.addAll {f : Settings} {active : Locale} {p : Prepared}
    (h : f.Prepares active p) : MeasureTable.builtin.addAll f.additions = .ok p.table :=
  addAll_of_enterCategories h.table

end Settings

namespace MeasureTable
variable {t u : MeasureTable} {l : Locale} {a b symbol : String} {m n : Measure}
  {adds : List (Category × String × Float)}

/-! ### Conversions -/

/-- The symbols of the built-in temperatures. -/
def temperatures : List String := ["K", "C", "F"]

/-- Every amount of `a` converts to `b` alike in both tables, as a value and between words. -/
def ConvertAlike (t u : MeasureTable) (a b : String) : Prop :=
  ∀ rates, ∀ l ∈ Locale.catalog, ∀ x,
    (Units.mk t rates l).amountIn ⟨x, .unit a⟩ (.unit b) =
        (Units.mk u rates l).amountIn ⟨x, .unit a⟩ (.unit b) ∧
      (Units.mk t rates l).convertAmount x a b = (Units.mk u rates l).convertAmount x a b

theorem Coherent.convertAmount_eq (h : t.Coherent) (ha : l.unitAlias a = none)
    (hb : l.unitAlias b = none) (hm : t.get? a = some m) (hn : t.get? b = some n)
    (rates : Option RateSet) (x : Float) :
    (Units.mk t rates l).convertAmount x a b = convertMeasure x m n := by
  simp only [Units.convertAmount, Units.measureOf, h.lookup?_symbol ha hm, h.lookup?_symbol hb hn]
  rfl

theorem convertAlike_iff (ht : t.Coherent) (hu : u.Coherent)
    (hnone : ∀ l ∈ Locale.catalog, l.unitAlias a = none ∧ l.unitAlias b = none) {m' n' : Measure}
    (hm : t.get? a = some m) (hn : t.get? b = some n) (hm' : u.get? a = some m')
    (hn' : u.get? b = some n') :
    t.ConvertAlike u a b ↔ ∀ x, convertMeasure x m n = convertMeasure x m' n' := by
  constructor
  · intro h x
    have hx := (h none Locale.english (by decide) x).1
    rwa [Units.amountIn_units hm hn, Units.amountIn_units hm' hn'] at hx
  · intro h rates l hl x
    obtain ⟨ha, hb⟩ := hnone l hl
    rw [Units.amountIn_units hm hn, Units.amountIn_units hm' hn', ht.convertAmount_eq ha hb hm hn,
      hu.convertAmount_eq ha hb hm' hn']
    exact ⟨h x, h x⟩

theorem category_eq_of_convertMeasure {x z : Float} (h : convertMeasure x m n = .ok z) :
    m.category = n.category := by
  by_contra hne
  rw [convertMeasure, if_pos hne] at h
  cases h

theorem convertMeasure_self (x : Float) (m : Measure) : convertMeasure x m m = .ok x := by
  rw [convertMeasure, if_neg (not_not_intro rfl), if_pos rfl]

theorem convertMeasure_zero (hm : Admits m) (hn : Admits n) (hm0 : m.offset = 0) (hn0 : n.offset = 0)
    {z : Float} (h : convertMeasure 0 m n = .ok z) : z = 0 := by
  obtain ⟨hmf, hmp, -⟩ := hm
  obtain ⟨hnf, hnp, -⟩ := hn
  have hzero : (0 : Float) + 0 = 0 := by decide +kernel
  unfold convertMeasure at h
  split at h
  · cases h
  · split at h
    · cases h
      rfl
    · cases h
      rw [Measure.fromBase, Measure.toBase, hm0, hn0, Double.zero_mul_of_pos hmf hmp, hzero,
        Double.sub_zero, Double.zero_div_of_pos hnf hnp]

/-! ### Temperatures -/

/-- What additions under these names leave of the temperatures. -/
structure KeepsTemperatures (names : List String) (t : MeasureTable) : Prop where
  /-- A temperature is as it was if and only if no addition has its symbol. -/
  units : ∀ s ∈ temperatures, t.get? s = builtin.get? s ↔ s ∉ names
  /-- There are no temperatures but the built-in ones. -/
  none_new : ∀ s m, t.get? s = some m → m.category = .temperature →
    s ∈ temperatures ∧ builtin.get? s = some m
  /-- Two temperatures convert as they did if and only if no addition has the symbol of either. -/
  conversions : ∀ a ∈ temperatures, ∀ b ∈ temperatures,
    t.ConvertAlike builtin a b ↔ a = b ∨ a ∉ names ∧ b ∉ names

theorem builtin_temperature (hs : symbol ∈ temperatures) :
    ∃ m, builtin.get? symbol = some m ∧ m.category = .temperature := by
  have hall : ∀ s ∈ temperatures, (builtin.get? s).map (·.category) = some .temperature := by
    decide +kernel
  exact Option.map_eq_some_iff.1 (hall symbol hs)

theorem mem_temperatures (h : builtin.get? symbol = some m) (hm : m.category = .temperature) :
    symbol ∈ temperatures := by
  have hall : ∀ v ∈ Measure.catalog, v.1.category = .temperature → v.1.symbol ∈ temperatures := by
    decide +kernel
  obtain ⟨v, hv, rfl⟩ := List.mem_map.1 (mem_catalog_of_get? h)
  exact sound_builtin.keyed h ▸ hall v hv hm

/-- The built-in temperatures have their zeros in different places. -/
theorem convertMeasure_zero_builtin (ha : a ∈ temperatures) (hb : b ∈ temperatures) (hab : a ≠ b)
    (hm : builtin.get? a = some m) (hn : builtin.get? b = some n) :
    ∃ z, convertMeasure 0 m n = .ok z ∧ z ≠ 0 := by
  have hall : ∀ a ∈ temperatures, ∀ b ∈ temperatures, a ≠ b → ∃ m ∈ builtin.get? a,
      ∃ n ∈ builtin.get? b, ∃ z ∈ (convertMeasure 0 m n).toOption, z ≠ 0 := by decide +kernel
  obtain ⟨m', hm', n', hn', z, hz, hne⟩ := hall a ha b hb hab
  cases hm.symm.trans hm'
  cases hn.symm.trans hn'
  refine ⟨z, ?_, hne⟩
  cases hconvert : convertMeasure 0 m n with
  | error e =>
    rw [hconvert] at hz
    cases hz
  | ok z' =>
    rw [hconvert] at hz
    cases hz
    rfl

section
variable (h : builtin.addAll adds = .ok t)
include h

theorem coherent_addAll : t.Coherent := (Grows.refl.addAll h).coherent coherent_builtin

/-- What has the symbol of a temperature is that temperature or an addition. -/
theorem kept_or_replaced (hs : symbol ∈ temperatures) :
    ∃ m, t.get? symbol = some m ∧
      ((symbol ∉ adds.map (·.2.1) ∧ builtin.get? symbol = some m ∧ m.category = .temperature) ∨
        symbol ∈ adds.map (·.2.1) ∧ Admits m ∧ m.offset = 0) := by
  obtain ⟨m₀, hm₀, hcategory⟩ := builtin_temperature hs
  rcases get?_addAll h symbol with ⟨hnot, hget⟩ | ⟨hmem, m, hget, hnew⟩
  · exact ⟨m₀, hget.trans hm₀, .inl ⟨hnot, hm₀, hcategory⟩⟩
  · exact ⟨m, hget, .inr ⟨hmem, hnew⟩⟩

theorem get?_eq_builtin_iff (hs : symbol ∈ temperatures) :
    t.get? symbol = builtin.get? symbol ↔ symbol ∉ adds.map (·.2.1) := by
  obtain ⟨m, hm, ⟨hnot, hm₀, -⟩ | ⟨hmem, hadmits, -⟩⟩ := kept_or_replaced h hs
  · exact iff_of_true (hm.trans hm₀.symm) hnot
  · obtain ⟨m₀, hm₀, hcategory⟩ := builtin_temperature hs
    refine iff_of_false (fun hsame => hadmits.2.2 ?_) (not_not_intro hmem)
    cases (hm.symm.trans hsame).trans hm₀
    exact hcategory

/-- No addition has the symbol of one of two temperatures if zero converts to anything but zero:
additions of one category have no offset, and an addition is in another category than a temperature. -/
theorem convertAlike_builtin_iff (ha : a ∈ temperatures) (hb : b ∈ temperatures) :
    t.ConvertAlike builtin a b ↔ a = b ∨ a ∉ adds.map (·.2.1) ∧ b ∉ adds.map (·.2.1) := by
  have hnone : ∀ l ∈ Locale.catalog, ∀ s ∈ temperatures, l.unitAlias s = none := by decide +kernel
  obtain ⟨m₀, hm₀, -⟩ := builtin_temperature ha
  obtain ⟨n₀, hn₀, -⟩ := builtin_temperature hb
  obtain ⟨m, hm, hma⟩ := kept_or_replaced h ha
  obtain ⟨n, hn, hnb⟩ := kept_or_replaced h hb
  rw [convertAlike_iff (coherent_addAll h) coherent_builtin
    (fun l hl => ⟨hnone l hl a ha, hnone l hl b hb⟩) hm hn hm₀ hn₀]
  constructor
  · intro halike
    by_cases hab : a = b
    · exact .inl hab
    obtain ⟨z, hz, hne⟩ := convertMeasure_zero_builtin ha hb hab hm₀ hn₀
    have hconvert := (halike 0).trans hz
    have hcategory := category_eq_of_convertMeasure hconvert
    -- Only two built-in units or two additions can be of one category.
    rcases hma with ⟨hnota, -, hcm⟩ | ⟨-, hadmitsm, hoffsetm⟩
    · rcases hnb with ⟨hnotb, -, -⟩ | ⟨-, hadmitsn, -⟩
      · exact .inr ⟨hnota, hnotb⟩
      · exact absurd (hcategory.symm.trans hcm) hadmitsn.2.2
    · rcases hnb with ⟨-, -, hcn⟩ | ⟨-, hadmitsn, hoffsetn⟩
      · exact absurd (hcategory.trans hcn) hadmitsm.2.2
      · exact absurd (convertMeasure_zero hadmitsm hadmitsn hoffsetm hoffsetn hconvert) hne
  · rintro (rfl | ⟨hnota, hnotb⟩) x
    · cases hm.symm.trans hn
      cases hm₀.symm.trans hn₀
      rw [convertMeasure_self, convertMeasure_self]
    · cases (hm.symm.trans ((get?_eq_builtin_iff h ha).2 hnota)).trans hm₀
      cases (hn.symm.trans ((get?_eq_builtin_iff h hb).2 hnotb)).trans hn₀
      rfl

theorem keepsTemperatures : KeepsTemperatures (adds.map (·.2.1)) t := by
  refine ⟨fun s hs => get?_eq_builtin_iff h hs, fun s m hm hcategory => ?_,
    fun a ha b hb => convertAlike_builtin_iff h ha hb⟩
  rcases get?_addAll h s with ⟨-, hget⟩ | ⟨-, m', hget, hadmits, -⟩
  · rw [hget] at hm
    exact ⟨mem_temperatures hm hcategory, hm⟩
  · cases hm.symm.trans hget
    exact absurd hcategory hadmits.2.2

end

/-- Additions to the built-in table, one by one or as settings make them, add no temperature. They leave
a temperature and its conversions as they are if and only if none has its symbol. -/
theorem temperatures_of_additions (adds : List (Category × String × Float)) (t : MeasureTable)
    (h : builtin.addAll adds = .ok t ∨
      ∃ (f : Settings) (active : Locale) (p : Prepared),
        f.prepare active = .ok p ∧ f.additions = adds ∧ p.table = t) :
    KeepsTemperatures (adds.map (·.2.1)) t := by
  rcases h with h | ⟨f, active, p, hp, rfl, rfl⟩
  · exact keepsTemperatures h
  · exact keepsTemperatures (Settings.prepare_eq_ok_iff.1 hp).addAll

/-- A length that is no temperature's namesake is added without harm. -/
theorem temperatures_of_additions_furlong :
    ∃ t, builtin.addAll [(.length, "furlong", 201.168)] = .ok t ∧ t.get? "C" = builtin.get? "C" ∧
      t.ConvertAlike builtin "C" "K" := by
  have hadded : builtin.addAll [(.length, "furlong", 201.168)] =
      .ok (builtin.register ⟨"furlong", .length, 201.168, 0⟩ []) := by rfl
  have h := temperatures_of_additions _ _ (.inl hadded)
  exact ⟨_, hadded, (h.units "C" (by decide)).2 (by decide),
    (h.conversions "C" (by decide) "K" (by decide)).2 (.inr ⟨by decide, by decide⟩)⟩

/-- A length named after the degree Celsius is accepted, and takes its place. -/
theorem temperatures_of_additions_celsius :
    ∃ t, builtin.addCustom .length "C" 2 = .ok t ∧
      t.get? "C" = some ⟨"C", .length, 2, 0⟩ ∧
      builtin.get? "C" = some ⟨"C", .temperature, 1, 273.15⟩ ∧
      (Units.mk t none .english).convertAmount 0 "C" "K" =
        .error (.clash (.categories "C" "length" "K" "temperature")) ∧
      (Units.mk builtin none .english).convertAmount 0 "C" "K" = .ok 273.15 := by
  have hadded : builtin.addCustom .length "C" 2 =
      .ok (builtin.register ⟨"C", .length, 2, 0⟩ []) := by rfl
  have hK : builtin.get? "K" = some ⟨"K", .temperature, 1, 0⟩ := by decide +kernel
  have hC : builtin.get? "C" = some ⟨"C", .temperature, 1, 273.15⟩ := by decide +kernel
  have hnewC : (builtin.register ⟨"C", .length, 2, 0⟩ []).get? "C" = some ⟨"C", .length, 2, 0⟩ := by
    rw [get?_register, if_pos rfl]
  have hnewK : (builtin.register ⟨"C", .length, 2, 0⟩ []).get? "K" =
      some ⟨"K", .temperature, 1, 0⟩ := by
    rw [get?_register, if_neg (by decide), hK]
  refine ⟨_, hadded, hnewC, hC, ?_, ?_⟩
  · rw [(coherent_builtin.addCustom hadded).convertAmount_eq rfl rfl hnewC hnewK]
    rfl
  · rw [coherent_builtin.convertAmount_eq rfl rfl hC hK]
    decide +kernel

end MeasureTable

end Reckoner

import Mathlib.Tactic.Ring
import Reckoner.Proofs.Currency.Validity
import Reckoner.Proofs.Exact.Numbers
import Reckoner.Proofs.Measure.Growth

/-!
# Conversions without rounding

In rationals a unit of a coherent table and a currency of a valid set are a `Gauge`: its amounts are an
affine image of the amounts in a base, which all units of a category and all currencies of a set share. A
conversion goes by way of the base, and where it is skipped, between a unit or code and itself, it would
lose nothing (`convertMeasure_eq`, `convertRate_eq` and, for two kinds that are `Alike`, `amountIn_eq`).
That is why conversions compose (`conversions_compose`); no factor or rate they divide by is zero, as
every one that is let in is positive.
-/

namespace Reckoner

open MeasureTable (builtin coherent_builtin)

/-- What amounts are compared in: a category of units, or money. -/
inductive Dimension where
  | category (c : Category)
  | money
deriving DecidableEq

/-- How amounts come to the base of their dimension. -/
structure Gauge where
  dimension : Dimension
  factor : ℚ
  offset : ℚ

namespace Gauge
variable {g : Gauge}

def toBase (g : Gauge) (x : ℚ) : ℚ := x * g.factor + g.offset

def fromBase (g : Gauge) (y : ℚ) : ℚ := (y - g.offset) / g.factor

theorem toBase_fromBase (h : g.factor ≠ 0) (y : ℚ) : g.toBase (g.fromBase y) = y := by
  rw [toBase, fromBase, div_mul_cancel₀ _ h, sub_add_cancel]

theorem fromBase_toBase (h : g.factor ≠ 0) (x : ℚ) : g.fromBase (g.toBase x) = x := by
  rw [toBase, fromBase, add_sub_cancel_right, mul_div_cancel_right₀ _ h]

/-- The currency of a rate, by its worth in the base currency. -/
def ofRate (rate : Float) : Gauge := ⟨.money, (Double.rational rate)⁻¹, 0⟩

end Gauge

def Measure.gauge (m : Measure) : Gauge :=
  ⟨.category m.category, Double.rational m.factor, Double.rational m.offset⟩

namespace Units

/-- The gauge of a unit in the table or of a currency with a rate. -/
def gauge? (u : Units) : Kind → Option Gauge
  | .number => none
  | .unit symbol => (u.table.get? symbol).map Measure.gauge
  | .currency code => (u.rates.bind (·.rate? code)).map .ofRate

def dimension? (u : Units) (k : Kind) : Option Dimension := (u.gauge? k).map (·.dimension)

/-- The table is the built-in one with accepted additions, and rates are those of a valid set. -/
structure Regular (u : Units) : Prop where
  table : builtin.Grows u.table
  rates : ∀ s, u.rates = some s → s.Valid

/-- Kinds of one dimension, with their gauges. -/
inductive Alike (u : Units) : Kind → Kind → Gauge → Gauge → Prop where
  | units {a b : String} {m n : Measure} (source : u.table.get? a = some m)
      (target : u.table.get? b = some n) (category : m.category = n.category) :
      Alike u (.unit a) (.unit b) m.gauge n.gauge
  | currencies {s : RateSet} {a b : String} {rate rate' : Float} (given : u.rates = some s)
      (source : s.rate? a = some rate) (target : s.rate? b = some rate') :
      Alike u (.currency a) (.currency b) (.ofRate rate) (.ofRate rate')

theorem alike_of_gauge? {u : Units} {j k : Kind} {g g' : Gauge} (hj : u.gauge? j = some g)
    (hk : u.gauge? k = some g') (hdimension : g.dimension = g'.dimension) : u.Alike j k g g' := by
  cases j with
  | number => cases hj
  | unit a =>
    obtain ⟨m, hm, rfl⟩ := Option.map_eq_some_iff.1 hj
    cases k with
    | number => cases hk
    | unit b =>
      obtain ⟨n, hn, rfl⟩ := Option.map_eq_some_iff.1 hk
      injection hdimension with hcategory
      exact .units hm hn hcategory
    | currency b =>
      obtain ⟨rate, -, rfl⟩ := Option.map_eq_some_iff.1 hk
      cases hdimension
  | currency a =>
    obtain ⟨rate, hrate, rfl⟩ := Option.map_eq_some_iff.1 hj
    cases k with
    | number => cases hk
    | unit b =>
      obtain ⟨n, -, rfl⟩ := Option.map_eq_some_iff.1 hk
      cases hdimension
    | currency b =>
      obtain ⟨rate', hrate', rfl⟩ := Option.map_eq_some_iff.1 hk
      obtain ⟨s, hs, ha⟩ := Option.bind_eq_some_iff.1 hrate
      obtain ⟨s', hs', hb⟩ := Option.bind_eq_some_iff.1 hrate'
      cases hs.symm.trans hs'
      exact .currencies hs ha hb

end Units

namespace Numbers

/-! ### Conversions by way of the base -/

section
variable {m n : Measure} {s : RateSet} {a b : String} {rate rate' : Float}

theorem fromBase_eq (h : m.gauge.factor ≠ 0) (y : ℚ) :
    rationals.fromBase m y = .ok (m.gauge.fromBase y) := if_neg h

/-- Where the conversion is skipped it would give the amount that it was given. -/
theorem convertMeasure_eq (hsymbol : m.symbol = n.symbol → m = n) (hn : n.gauge.factor ≠ 0)
    (hcategory : m.category = n.category) (x : ℚ) :
    rationals.convertMeasure x m n = .ok (n.gauge.fromBase (m.gauge.toBase x)) := by
  rw [convertMeasure, if_neg (not_not_intro hcategory)]
  split
  · next h => rw [hsymbol h, Gauge.fromBase_toBase hn]
  · exact fromBase_eq hn _

theorem convertRate_eq (ha : s.rate? a = some rate) (hb : s.rate? b = some rate')
    (hrate : Double.rational rate ≠ 0) (x : ℚ) :
    rationals.convertRate s x a b =
      .ok ((Gauge.ofRate rate').fromBase ((Gauge.ofRate rate).toBase x)) := by
  have hbase : x * Double.rational rate' / Double.rational rate =
      (Gauge.ofRate rate').fromBase ((Gauge.ofRate rate).toBase x) := by
    simp only [Gauge.ofRate, Gauge.toBase, Gauge.fromBase, add_zero, sub_zero, div_inv_eq_mul]
    ring
  rw [convertRate]
  split
  · next heq =>
    subst heq
    cases ha.symm.trans hb
    rw [← hbase, mul_div_cancel_right₀ _ hrate]
  · rw [ha, hb, ← hbase]
    exact if_neg hrate

end

/-! ### Coherent tables and valid rates -/

section
variable {t : MeasureTable} {s : RateSet} {u : Units} {j k : Kind} {g g' : Gauge} {m n : Measure}
  {a b : String} {rate : Float}

theorem gauge_factor_ne_zero (ht : t.Coherent) (hm : t.get? a = some m) : m.gauge.factor ≠ 0 := by
  obtain ⟨hfinite, hpos⟩ := ht.factor hm
  exact (Double.rational_pos hfinite hpos).ne'

theorem rate_ne_zero (hs : s.Valid) (ha : s.rate? a = some rate) : Double.rational rate ≠ 0 := by
  obtain ⟨hfinite, hpos⟩ := hs.sound.rate ha
  exact (Double.rational_pos hfinite hpos).ne'

theorem convertMeasure_of_get? (ht : t.Coherent) (hm : t.get? a = some m) (hn : t.get? b = some n)
    (hcategory : m.category = n.category) (x : ℚ) :
    rationals.convertMeasure x m n = .ok (n.gauge.fromBase (m.gauge.toBase x)) := by
  refine convertMeasure_eq (fun h => ?_) (gauge_factor_ne_zero ht hn) hcategory x
  rw [ht.sound.keyed hm, ht.sound.keyed hn] at h
  subst h
  exact Option.some.inj (hm.symm.trans hn)

theorem factor_ne_zero_of_alike (h : u.Regular) (hjk : u.Alike j k g g') : g.factor ≠ 0 := by
  cases hjk with
  | units source _ _ => exact gauge_factor_ne_zero (h.table.coherent coherent_builtin) source
  | currencies given source _ => exact inv_ne_zero (rate_ne_zero (h.rates _ given) source)

theorem factor_ne_zero (h : u.Regular) (hg : u.gauge? k = some g) : g.factor ≠ 0 :=
  factor_ne_zero_of_alike h (Units.alike_of_gauge? hg hg rfl)

/-- Quantities of one dimension are told in one another by way of the base. -/
theorem amountIn_eq (h : u.Regular) (hj : u.gauge? j = some g) (hk : u.gauge? k = some g')
    (hdimension : g.dimension = g'.dimension) (x : ℚ) :
    rationals.amountIn u ⟨x, j⟩ k = .ok (g'.fromBase (g.toBase x)) := by
  cases Units.alike_of_gauge? hj hk hdimension with
  | units source target category =>
    simp only [amountIn, Units.measure, source, target]
    exact convertMeasure_of_get? (h.table.coherent coherent_builtin) source target category x
  | currencies given source target =>
    rw [← convertRate_eq source target (rate_ne_zero (h.rates _ given) source)]
    simp only [amountIn, convertRate, given]
    split <;> rfl

end

/-! ### Conversions one after another -/

/-- Every conversion gives an amount, which comes back to the one converted and comes to anything else as
that one does. -/
def Composes {α : Type} (convert : ℚ → α → α → Outcome ℚ) (P : α → Prop) : Prop :=
  ∀ a b c, P a → P b → P c → ∀ x, ∃ y,
    convert x a b = .ok y ∧ convert y b a = .ok x ∧ convert y b c = convert x a c

theorem composes_of_gauges {α : Type} {convert : ℚ → α → α → Outcome ℚ} {P : α → Prop}
    (gauges : α → Gauge → Prop) (hgauges : ∀ a, P a → ∃ g, gauges a g)
    (hfactor : ∀ a g, gauges a g → g.factor ≠ 0)
    (hconvert : ∀ a b g g' x, gauges a g → gauges b g' →
      convert x a b = .ok (g'.fromBase (g.toBase x))) : Composes convert P := by
  intro a b c ha hb hc x
  obtain ⟨g, hg⟩ := hgauges a ha
  obtain ⟨g', hg'⟩ := hgauges b hb
  obtain ⟨g'', hg''⟩ := hgauges c hc
  have hbase : g'.toBase (g'.fromBase (g.toBase x)) = g.toBase x :=
    Gauge.toBase_fromBase (hfactor b g' hg') _
  refine ⟨_, hconvert a b g g' x hg hg', ?_, ?_⟩
  · rw [hconvert b a g' g _ hg' hg, hbase, Gauge.fromBase_toBase (hfactor a g hg)]
  · rw [hconvert b c g' g'' _ hg' hg'', hconvert a c g g'' x hg hg'', hbase]

theorem composes_measures {t : MeasureTable} (ht : t.Coherent) (c : Category) :
    Composes rationals.convertMeasure fun m =>
      (∃ symbol, t.get? symbol = some m) ∧ m.category = c := by
  refine composes_of_gauges
    (fun m g => (∃ symbol, t.get? symbol = some m) ∧ m.category = c ∧ g = m.gauge) ?_ ?_ ?_
  · rintro m ⟨hm, hcategory⟩
    exact ⟨_, hm, hcategory, rfl⟩
  · rintro m g ⟨⟨symbol, hm⟩, -, rfl⟩
    exact gauge_factor_ne_zero ht hm
  · rintro m n g g' x ⟨⟨a, hm⟩, hcategory, rfl⟩ ⟨⟨b, hn⟩, hcategory', rfl⟩
    exact convertMeasure_of_get? ht hm hn (hcategory.trans hcategory'.symm) x

theorem composes_words {u : Units} (ht : u.table.Coherent) (c : Category) :
    Composes (rationals.convertAmount u) fun word =>
      ∃ m, u.table.lookup? u.locale word = some m ∧ m.category = c := by
  refine composes_of_gauges
    (fun word g => ∃ m, u.table.lookup? u.locale word = some m ∧ m.category = c ∧ g = m.gauge) ?_ ?_ ?_
  · rintro word ⟨m, hm, hcategory⟩
    exact ⟨_, m, hm, hcategory, rfl⟩
  · rintro word g ⟨m, hm, -, rfl⟩
    obtain ⟨symbol, -, hget⟩ := Option.bind_eq_some_iff.1 hm
    exact gauge_factor_ne_zero ht hget
  · rintro a b g g' x ⟨m, hm, hcategory, rfl⟩ ⟨n, hn, hcategory', rfl⟩
    obtain ⟨symbol, -, hget⟩ := Option.bind_eq_some_iff.1 hm
    obtain ⟨symbol', -, hget'⟩ := Option.bind_eq_some_iff.1 hn
    simp only [convertAmount, Units.measureOf, hm, hn]
    exact convertMeasure_of_get? ht hget hget' (hcategory.trans hcategory'.symm) x

theorem composes_codes {s : RateSet} (hs : s.Valid) :
    Composes (rationals.convertRate s) fun code => s.contains code = true := by
  refine composes_of_gauges (fun code g => ∃ rate, s.rate? code = some rate ∧ g = .ofRate rate) ?_ ?_ ?_
  · intro code hcode
    obtain ⟨rate, hrate⟩ := RateSet.contains_iff.1 hcode
    exact ⟨_, rate, hrate, rfl⟩
  · rintro code g ⟨rate, hrate, rfl⟩
    exact inv_ne_zero (rate_ne_zero hs hrate)
  · rintro a b g g' x ⟨rate, ha, rfl⟩ ⟨rate', hb, rfl⟩
    exact convertRate_eq ha hb (rate_ne_zero hs ha) x

/-- Units of one category in a table that the built-in one grows to, words for them in any locale, and the
codes of a valid set of rates are converted without a failure, there and back and by way of a third one. -/
theorem conversions_compose {t : MeasureTable} {s : RateSet} (ht : builtin.Grows t) (hs : s.Valid) :
    (∀ c, Composes rationals.convertMeasure fun m =>
      (∃ symbol, t.get? symbol = some m) ∧ m.category = c) ∧
    (∀ rates l c, Composes (rationals.convertAmount ⟨t, rates, l⟩) fun word =>
      ∃ m, t.lookup? l word = some m ∧ m.category = c) ∧
    Composes (rationals.convertRate s) fun code => s.contains code = true := by
  have hcoherent := ht.coherent coherent_builtin
  refine ⟨composes_measures hcoherent, fun rates l c => ?_, composes_codes hs⟩
  exact composes_words (u := ⟨t, rates, l⟩) hcoherent c

/-- By way of a unit that was added, and between currencies neither of which is the base. -/
theorem conversions_compose_furlong :
    ∃ t s, builtin.addCustom .length "furlong" 201.168 = .ok t ∧
      RateSet.make ⟨2025, 1, 31⟩ "usd" [("eur", 0.9), ("jpy", 150)] = .ok s ∧
      (∃ y, rationals.convertAmount ⟨t, none, .english⟩ 3 "mi" "furlong" = .ok y ∧
        rationals.convertAmount ⟨t, none, .english⟩ y "furlong" "mi" = .ok 3 ∧
        rationals.convertAmount ⟨t, none, .english⟩ y "furlong" "km" =
          rationals.convertAmount ⟨t, none, .english⟩ 3 "mi" "km") ∧
      ∃ y, rationals.convertRate s 3 "EUR" "JPY" = .ok y ∧
        rationals.convertRate s y "JPY" "EUR" = .ok 3 ∧
        rationals.convertRate s y "JPY" "USD" = rationals.convertRate s 3 "EUR" "USD" := by
  have hadd : builtin.addCustom .length "furlong" 201.168 =
      .ok (builtin.register ⟨"furlong", .length, 201.168, 0⟩ []) := rfl
  have hmake : RateSet.make ⟨2025, 1, 31⟩ "usd" [("eur", 0.9), ("jpy", 150)] =
      .ok ⟨⟨2025, 1, 31⟩, "USD", ((Dictionary.empty.insert "EUR" 0.9).insert "JPY" 150).insert "USD" 1⟩ :=
    rfl
  have hcoherent := (MeasureTable.Grows.add .refl hadd).coherent coherent_builtin
  have hlengths : ∀ symbol ∈ ["mi", "furlong", "km"], Locale.english.unitAlias symbol = none ∧
      ((builtin.register ⟨"furlong", .length, 201.168, 0⟩ []).get? symbol).map (·.category) =
        some .length := by decide +kernel
  have hwords : ∀ symbol ∈ ["mi", "furlong", "km"], ∃ m,
      (builtin.register ⟨"furlong", .length, 201.168, 0⟩ []).lookup? .english symbol = some m ∧
        m.category = .length := by
    intro symbol hsymbol
    obtain ⟨hword, hlength⟩ := hlengths symbol hsymbol
    obtain ⟨m, hget, hcategory⟩ := Option.map_eq_some_iff.1 hlength
    exact ⟨m, hcoherent.lookup?_symbol hword hget, hcategory⟩
  simp only [List.forall_mem_cons] at hwords
  obtain ⟨hmi, hfurlong, hkm, -⟩ := hwords
  obtain ⟨-, hlookups, hcodes⟩ := conversions_compose (.add .refl hadd) (.make hmake)
  refine ⟨_, _, hadd, hmake, ?_, ?_⟩
  · exact hlookups none .english .length "mi" "furlong" "km" hmi hfurlong hkm 3
  · exact hcodes "EUR" "JPY" "USD" rfl rfl rfl 3

end Numbers

end Reckoner

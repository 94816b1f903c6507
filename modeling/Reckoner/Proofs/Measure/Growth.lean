import Reckoner.Proofs.Loading
import Reckoner.Proofs.Text.Lowercase

/-!
# Tables that units are added to

The built-in table and all that grow from it by adding units of the settings (`Grows`) are `Coherent`:
units and names fit together, every factor is positive, and every symbol is its own name. Their
temperatures are the built-in ones, and nothing else has an offset. A name that is added stands in the
way of no other: words keep resolving (`Grows.isSome_lookup?`), and only words with the lower-case form
of the new name may resolve differently (`Coherent.lookup?_addCustom`).
-/

namespace Reckoner

open Settings (addCustom_eq_ok)

namespace MeasureTable
variable {t u : MeasureTable} {m : Measure} {l : Locale} {category : Category}
  {name symbol word : String} {factor : Float}

/-- The second table is the first one with units added, one after the other. -/
inductive Grows (t : MeasureTable) : MeasureTable → Prop where
  | refl : Grows t t
  | add {u v category name factor} : Grows t u → u.addCustom category name factor = .ok v → Grows t v

/-! ### Symbols as names -/

/-- Every symbol is a name of its own unit. -/
def Owned (t : MeasureTable) : Prop := ∀ symbol ∈ t, t.aliases.get? symbol = some symbol

/-- A name that stands for itself keeps doing so, unless it is given to another symbol. -/
theorem get?_foldl_addName_self {aliases : Dictionary String} {names : List String}
    (hnames : word ∈ names → word = symbol) (h : aliases.get? word = some word) :
    (names.foldl (addName symbol) aliases).get? word = some word := by
  induction names generalizing aliases with
  | nil => exact h
  | cons name names ih =>
    refine ih (fun hmem => hnames (List.mem_cons_of_mem _ hmem)) ?_
    rw [get?_addName]
    split
    · next heq => rw [hnames (heq ▸ List.mem_cons_self ..)]
    · rw [h]
      rfl

theorem Owned.register (h : t.Owned) {names : List String}
    (hnames : ∀ name ∈ names, name ∈ t → name = m.symbol) : (t.register m names).Owned := by
  intro symbol hmem
  have hfirst : (addName m.symbol t.aliases m.symbol).get? symbol = some symbol := by
    rw [get?_addName]
    split
    · next heq => rw [heq]
    · next hne =>
      rw [h symbol ((mem_register.1 hmem).resolve_left hne)]
      rfl
  have hself : symbol ∈ names → symbol = m.symbol := fun hname =>
    (mem_register.1 hmem).elim Eq.symm (hnames symbol hname)
  show (names.foldl (addName m.symbol) (addName m.symbol t.aliases m.symbol)).get? symbol = some symbol
  exact get?_foldl_addName_self hself hfirst

theorem Owned.enter (h : t.Owned) {units : List (Measure × List String)}
    (hunits : ∀ v ∈ units, ∀ name ∈ v.2, name ∈ t ∨ name ∈ units.map (·.1.symbol) →
      name = v.1.symbol) : (t.enter units).Owned := by
  induction units generalizing t with
  | nil => exact h
  | cons v units ih =>
    obtain ⟨hfirst, hrest⟩ := List.forall_mem_cons.1 hunits
    refine ih (h.register fun name hname hmem => hfirst name hname (.inl hmem)) ?_
    intro w hw name hname hmem
    refine hrest w hw name hname ?_
    rw [mem_register, or_assoc, or_left_comm] at hmem
    rw [List.map_cons, List.mem_cons]
    exact hmem.imp_right fun h => h.imp_left Eq.symm

/-- A further name of a built-in unit is no symbol of another one. -/
theorem owned_builtin : builtin.Owned := by
  have hnames : ∀ v ∈ Measure.catalog, ∀ u ∈ Measure.catalog, u.1.symbol ∈ v.2 →
      u.1.symbol = v.1.symbol := by decide +kernel
  rw [builtin_eq_enter]
  refine Owned.enter (fun _ h => absurd h Bool.false_ne_true) fun v hv name hname hmem => ?_
  obtain ⟨u, hu, rfl⟩ := List.mem_map.1 (hmem.resolve_left Bool.false_ne_true)
  exact hnames v hv u hu hname

/-! ### Coherent tables -/

/-- A table that the built-in one grows to. -/
structure Coherent (t : MeasureTable) : Prop where
  sound : t.Sound
  owned : t.Owned
  factor : ∀ {symbol m}, t.get? symbol = some m → m.factor.isFinite = true ∧ 0 < m.factor
  builtin : ∀ symbol ∈ builtin, symbol ∈ t

theorem coherent_builtin : builtin.Coherent := by
  refine ⟨sound_builtin, owned_builtin, fun {symbol m} hget => ?_, fun _ h => h⟩
  have hfactors : ∀ v ∈ Measure.catalog, v.1.factor.isFinite = true ∧ 0 < v.1.factor := by
    decide +kernel
  obtain ⟨v, hv, rfl⟩ := List.mem_map.1 (mem_catalog_of_get? hget)
  exact hfactors v hv

theorem Coherent.addCustom (h : t.Coherent) (hadd : t.addCustom category name factor = .ok u) :
    u.Coherent := by
  obtain ⟨⟨hfinite, hpositive, -⟩, rfl⟩ := addCustom_eq_ok hadd
  refine ⟨h.sound.register _ _, h.owned.register (List.forall_mem_nil _), fun {symbol m} hget => ?_,
    fun symbol hmem => mem_register.2 (.inr (h.builtin symbol hmem))⟩
  rw [get?_register] at hget
  split at hget
  · cases hget
    exact ⟨hfinite, hpositive⟩
  · exact h.factor hget

theorem Grows.coherent (h : t.Grows u) (ht : t.Coherent) : u.Coherent := by
  induction h with
  | refl => exact ht
  | add _ hadd ih => exact ih.addCustom hadd

/-! ### Offsets -/

/-- A unit that is not built in has no offset and is no temperature. -/
theorem Grows.mem_catalog_or (h : builtin.Grows t) (hget : t.get? symbol = some m) :
    m ∈ Measure.catalog.map Prod.fst ∨ m.category ≠ .temperature ∧ m.offset = 0 := by
  induction h with
  | refl => exact .inl (mem_catalog_of_get? hget)
  | add _ hadd ih =>
    obtain ⟨⟨-, -, hother⟩, rfl⟩ := addCustom_eq_ok hadd
    rw [get?_register] at hget
    split at hget
    · cases hget
      exact .inr ⟨hother, rfl⟩
    · exact ih hget

/-- Only temperatures have an offset. -/
theorem Grows.offset_eq_zero (h : builtin.Grows t) (hget : t.get? symbol = some m)
    (hcategory : m.category ≠ .temperature) : m.offset = 0 := by
  have hall : ∀ m ∈ Measure.catalog.map Prod.fst, m.category ≠ .temperature → m.offset = 0 := by
    decide +kernel
  rcases h.mem_catalog_or hget with hmem | ⟨-, hoffset⟩
  · exact hall m hmem hcategory
  · exact hoffset

/-- Every temperature is built in. -/
theorem Grows.mem_catalog (h : builtin.Grows t) (hget : t.get? symbol = some m)
    (hcategory : m.category = .temperature) : m ∈ Measure.catalog.map Prod.fst :=
  (h.mem_catalog_or hget).resolve_right fun hother => hother.1 hcategory

/-! ### Looking words up -/

namespace Coherent
variable (h : t.Coherent)
include h

/-- The symbol of a unit is a word for it, unless the locale has the word for another. -/
theorem lookup?_symbol (hword : l.unitAlias symbol = none) (hget : t.get? symbol = some m) :
    t.lookup? l symbol = some m := by
  have hsymbol : t.symbol? l symbol = some symbol := by
    rw [symbol?, hword, h.owned symbol (mem_of_get? hget)]
    rfl
  rw [lookup?, hsymbol]
  exact hget

theorem lookup?_unitAlias (hl : l ∈ Locale.catalog) (hword : l.unitAlias word = some symbol) :
    ∃ m, t.lookup? l word = some m ∧ m.symbol = symbol := by
  obtain ⟨m, hm⟩ := Option.isSome_iff_exists.1 (h.builtin symbol (mem_builtin_of_unitAlias hl hword))
  refine ⟨m, ?_, h.sound.keyed hm⟩
  rw [lookup?, symbol?, hword]
  exact hm

/-- What a word of a known locale stands for is in the table. -/
theorem mem_of_symbol? (hl : l ∈ Locale.catalog) (hsymbol : t.symbol? l word = some symbol) :
    symbol ∈ t := by
  unfold symbol? at hsymbol
  cases hword : l.unitAlias word with
  | some s =>
    rw [hword] at hsymbol
    cases hsymbol
    exact h.builtin symbol (mem_builtin_of_unitAlias hl hword)
  | none =>
    rw [hword] at hsymbol
    cases hexact : t.aliases.get? word with
    | some s =>
      rw [hexact] at hsymbol
      cases hsymbol
      exact h.sound.stands hexact
    | none =>
      rw [hexact] at hsymbol
      exact h.sound.stands hsymbol

/-- Adding a unit under a new symbol plays no part for words with another lower-case form. -/
theorem lookup?_addCustom (hl : l ∈ Locale.catalog)
    (hadd : t.addCustom category name factor = .ok u) (hnew : name ∉ t)
    (hne : Text.lowercase word ≠ Text.lowercase name) : u.lookup? l word = t.lookup? l word := by
  obtain ⟨-, rfl⟩ := addCustom_eq_ok hadd
  have hkept : ∀ k, Text.lowercase k ≠ Text.lowercase name →
      (addName name t.aliases name).get? k = t.aliases.get? k := by
    intro k hk
    rw [get?_addName, if_neg fun heq => hk (by rw [heq]), if_neg fun heq => hk ?_, Option.or_none]
    rw [← heq, Text.lowercase_lowercase]
  have hsymbol : (t.register ⟨name, category, factor, 0⟩ []).symbol? l word = t.symbol? l word := by
    have hlower : Text.lowercase (Text.lowercase word) ≠ Text.lowercase name := by
      rwa [Text.lowercase_lowercase]
    rw [symbol?, symbol?, register, List.foldl_cons, List.foldl_nil, hkept word hne,
      hkept (Text.lowercase word) hlower]
  rw [lookup?, lookup?, hsymbol]
  cases hcase : t.symbol? l word with
  | none => rfl
  | some symbol =>
    have hsame : name ≠ symbol := fun heq => hnew (heq ▸ h.mem_of_symbol? hl hcase)
    rw [Option.bind_some, Option.bind_some, get?_register]
    exact if_neg hsame

end Coherent

/-- A word resolves if it stands for a unit in the locale, or else in either case in the table. -/
theorem Sound.isSome_lookup?_iff (h : t.Sound) : (t.lookup? l word).isSome = true ↔
    (∃ symbol, l.unitAlias word = some symbol ∧ symbol ∈ t) ∨ l.unitAlias word = none ∧
      ((t.aliases.get? word).isSome = true ∨ (t.aliases.get? (Text.lowercase word)).isSome = true) := by
  have hstands : ∀ {k s}, t.aliases.get? k = some s → (t.get? s).isSome = true := fun hk => h.stands hk
  rw [lookup?, symbol?]
  cases hword : l.unitAlias word with
  | some symbol => simp [mem_def]
  | none =>
    cases hexact : t.aliases.get? word with
    | some s => simp [hstands hexact]
    | none =>
      cases hlower : t.aliases.get? (Text.lowercase word) with
      | some s => simp [hstands hlower]
      | none => simp

theorem Grows.isSome_lookup? (h : t.Grows u) (ht : t.Coherent)
    (hword : (t.lookup? l word).isSome = true) : (u.lookup? l word).isSome = true := by
  induction h with
  | refl => exact hword
  | add hgrows hadd ih =>
    have hsound := (hgrows.coherent ht).sound
    obtain ⟨-, rfl⟩ := addCustom_eq_ok hadd
    rw [hsound.isSome_lookup?_iff] at ih
    rw [(hsound.register _ _).isSome_lookup?_iff]
    refine ih.imp (fun ⟨symbol, halias, hmem⟩ => ⟨symbol, halias, mem_register.2 (.inr hmem)⟩) ?_
    exact fun ⟨halias, hname⟩ => ⟨halias,
      hname.imp (isSome_get?_foldl_addName _) (isSome_get?_foldl_addName _)⟩

/-- In every table that the built-in one grows to, units are stored under their own symbols with a
finite positive factor, names stand for units of the table, a symbol names its unit where the locale has
no such word, and the words of the locales name units. As the table grows further, words that name a
unit keep naming one, and a unit under a new symbol changes only what words with the lower-case form of
the symbol name. -/
theorem lookups_of_grows (h : builtin.Grows t) :
    (∀ symbol m, t.get? symbol = some m →
      m.symbol = symbol ∧ m.factor.isFinite = true ∧ 0 < m.factor) ∧
    (∀ name symbol, t.aliases.get? name = some symbol → symbol ∈ t) ∧
    (∀ (l : Locale) symbol m, l.unitAlias symbol = none → t.get? symbol = some m →
      t.lookup? l symbol = some m) ∧
    (∀ l ∈ Locale.catalog, ∀ a ∈ l.unitAliases, ∃ m, t.lookup? l a.1 = some m ∧ m.symbol = a.2) ∧
    (∀ u, t.Grows u → ∀ l word, (t.lookup? l word).isSome = true → (u.lookup? l word).isSome = true) ∧
    ∀ category name factor u, t.addCustom category name factor = .ok u → name ∉ t →
      ∀ l ∈ Locale.catalog, ∀ word, u.lookup? l word ≠ t.lookup? l word →
        Text.lowercase word = Text.lowercase name := by
  have ht := h.coherent coherent_builtin
  refine ⟨fun symbol m hget => ⟨ht.sound.keyed hget, ht.factor hget⟩, fun _ _ => ht.sound.stands,
    fun l symbol m => ht.lookup?_symbol, fun l hl a ha => ?_, fun u hu l word => hu.isSome_lookup? ht, ?_⟩
  · have haliases : ∀ l ∈ Locale.catalog, ∀ a ∈ l.unitAliases, l.unitAlias a.1 = some a.2 := by
      decide +kernel
    exact ht.lookup?_unitAlias hl (haliases l hl a ha)
  · intro category name factor u hadd hnew l hl word hchanged
    by_contra hne
    exact hchanged (ht.lookup?_addCustom hl hadd hnew hne)

/-- A unit whose symbol differs from a built-in one in case only. -/
def kilomile : Measure := ⟨"KM", .length, 1609344, 0⟩

theorem lookups_of_grows_kilomile :
    builtin.Grows (builtin.register kilomile []) ∧ Locale.german.unitAlias "KM" = none ∧
      (builtin.register kilomile []).get? "KM" = some kilomile ∧
        (builtin.register kilomile []).lookup? .german "KM" = some kilomile := by
  have hadded : builtin.addCustom .length "KM" 1609344 = .ok (builtin.register kilomile []) := by rfl
  have hgrows : builtin.Grows (builtin.register kilomile []) :=
    .add .refl hadded
  have hword : Locale.german.unitAlias "KM" = none := by decide
  have hget : (builtin.register kilomile []).get? "KM" = some kilomile := by
    rw [get?_register]
    exact if_pos rfl
  exact ⟨hgrows, hword, hget, (lookups_of_grows hgrows).2.2.1 .german "KM" kilomile hword hget⟩

end MeasureTable

end Reckoner

import Mathlib.Data.List.Basic
import Mathlib.Data.List.Induction
import Reckoner.Measure.Catalog

/-!
# What a table of units knows

A table is made by entering units one after the other. `Sound` is what every such table has: a unit is
stored under its own symbol, a name stands for a unit that is there, and a symbol is a name too. So
the symbol of a unit in the table can be written, in every locale, and names a unit
(`Sound.isSome_lookup?`); and what a word names is in the table (`Sound.lookup?_mem`).
-/

namespace Reckoner

namespace MeasureTable
variable {t : MeasureTable} {m : Measure} {name symbol word : String}

instance : Membership String MeasureTable := ⟨fun t symbol => (t.get? symbol).isSome = true⟩

theorem mem_def : symbol ∈ t ↔ (t.get? symbol).isSome = true := Iff.rfl

theorem not_mem_iff : symbol ∉ t ↔ t.get? symbol = none := by
  rw [mem_def, Option.not_isSome_iff_eq_none]

instance (symbol : String) (t : MeasureTable) : Decidable (symbol ∈ t) :=
  inferInstanceAs (Decidable ((t.get? symbol).isSome = true))

theorem mem_of_get? (h : t.get? symbol = some m) : symbol ∈ t := by
  rw [mem_def, h]
  rfl

theorem get?_register (t : MeasureTable) (m : Measure) (names : List String) (symbol : String) :
    (t.register m names).get? symbol = if m.symbol = symbol then some m else t.get? symbol :=
  Dictionary.get?_insert ..

theorem mem_register {names : List String} :
    symbol ∈ t.register m names ↔ m.symbol = symbol ∨ symbol ∈ t := by
  rw [mem_def, mem_def, get?_register]
  split
  · next h => simp [h]
  · next h => simp [h]

/-! ### Several units -/

/-- The table with units entered one after the other, each with its further names. -/
def enter (t : MeasureTable) (units : List (Measure × List String)) : MeasureTable :=
  units.foldl (fun t u => t.register u.1 u.2) t

theorem get?_enter (t : MeasureTable) (units : List (Measure × List String)) (symbol : String) :
    (t.enter units).get? symbol =
      ((units.map (·.1)).reverse.find? (·.symbol == symbol)).or (t.get? symbol) := by
  induction units using List.reverseRecOn with
  | nil => rfl
  | append_singleton units u ih =>
    rw [enter, List.foldl_concat, get?_register, List.map_append, List.reverse_append,
      List.map_singleton, List.reverse_singleton, List.singleton_append, List.find?_cons]
    by_cases h : u.1.symbol = symbol
    · rw [if_pos h, beq_iff_eq.2 h]
      rfl
    · rw [if_neg h, beq_eq_false_iff_ne.2 h]
      exact ih

theorem mem_enter {units : List (Measure × List String)} :
    symbol ∈ t.enter units ↔ symbol ∈ units.map (·.1.symbol) ∨ symbol ∈ t := by
  induction units using List.reverseRecOn with
  | nil => simp [enter]
  | append_singleton units u ih =>
    rw [enter, List.foldl_concat, mem_register, List.map_append, List.mem_append, ← enter, ih,
      List.map_singleton, List.mem_singleton, eq_comm, ← or_assoc, or_comm (a := _ = _)]

theorem builtin_eq_enter : builtin = empty.enter Measure.catalog := rfl

theorem mem_builtin : symbol ∈ builtin ↔ symbol ∈ Measure.catalog.map (·.1.symbol) := by
  rw [builtin_eq_enter, mem_enter, or_iff_left]
  exact Bool.false_ne_true

theorem mem_catalog_of_get? (h : builtin.get? symbol = some m) : m ∈ Measure.catalog.map (·.1) := by
  rw [builtin_eq_enter, get?_enter] at h
  rcases Option.or_eq_some_iff.1 h with hfind | ⟨-, hempty⟩
  · exact List.mem_reverse.1 (List.mem_of_find?_eq_some hfind)
  · cases hempty

/-! ### Names -/

/-- A name that is given to a symbol stands for it; every other name that stands for something after
that stood for it before, or is the name in lower case. -/
theorem get?_addName (symbol : String) (aliases : Dictionary String) (name k : String) :
    (addName symbol aliases name).get? k =
      if name = k then some symbol
      else (aliases.get? k).or (if Text.lowercase name = k then some symbol else none) := by
  rw [addName, Dictionary.get?_insertIfNew, Dictionary.get?_insert]
  split <;> rfl

theorem get?_foldl_addName {aliases : Dictionary String} {names : List String} {k : String}
    (h : (names.foldl (addName symbol) aliases).get? k = some word) :
    word = symbol ∨ aliases.get? k = some word := by
  induction names generalizing aliases with
  | nil => exact .inr h
  | cons name names ih =>
    rcases ih h with rfl | h
    · exact .inl rfl
    · rw [get?_addName] at h
      split at h
      · cases h
        exact .inl rfl
      · rcases Option.or_eq_some_iff.1 h with h | ⟨-, h⟩
        · exact .inr h
        · split at h
          · cases h
            exact .inl rfl
          · exact nomatch h

/-- What stands for something after names were given is one of them, in lower case perhaps. -/
theorem exists_name_of_get? {aliases : Dictionary String} {names : List String} {k : String}
    (h : (names.foldl (addName symbol) aliases).get? k = some word) :
    (∃ name ∈ names, k = name ∨ k = Text.lowercase name) ∨ aliases.get? k = some word := by
  induction names generalizing aliases with
  | nil => exact .inr h
  | cons name names ih =>
    rcases ih h with ⟨name', hname, hk⟩ | h
    · exact .inl ⟨name', List.mem_cons_of_mem _ hname, hk⟩
    · rw [get?_addName] at h
      split at h
      · next heq => exact .inl ⟨name, List.mem_cons_self .., .inl heq.symm⟩
      · rcases Option.or_eq_some_iff.1 h with h | ⟨-, h⟩
        · exact .inr h
        · split at h
          · next heq => exact .inl ⟨name, List.mem_cons_self .., .inr heq.symm⟩
          · cases h

theorem exists_name_of_enter {units : List (Measure × List String)} {k : String}
    (h : (t.enter units).aliases.get? k = some word) :
    (∃ u ∈ units, ∃ name ∈ u.1.symbol :: u.2, k = name ∨ k = Text.lowercase name) ∨
      t.aliases.get? k = some word := by
  induction units using List.reverseRecOn with
  | nil => exact .inr h
  | append_singleton units u ih =>
    rw [enter, List.foldl_concat] at h
    rcases exists_name_of_get? h with hname | h
    · exact .inl ⟨u, List.mem_append_right _ (List.mem_singleton_self u), hname⟩
    · exact (ih h).imp_left fun ⟨u', hu, hname⟩ => ⟨u', List.mem_append_left _ hu, hname⟩

/-- A name of a built-in unit is in the catalog, in lower case perhaps. -/
theorem exists_name_of_builtin {k : String} (h : builtin.aliases.get? k = some word) :
    ∃ u ∈ Measure.catalog, ∃ name ∈ u.1.symbol :: u.2, k = name ∨ k = Text.lowercase name := by
  rw [builtin_eq_enter] at h
  refine (exists_name_of_enter h).resolve_right fun h => ?_
  cases h

theorem isSome_get?_foldl_addName {aliases : Dictionary String} (names : List String) {k : String}
    (h : (aliases.get? k).isSome = true) :
    ((names.foldl (addName symbol) aliases).get? k).isSome = true := by
  induction names generalizing aliases with
  | nil => exact h
  | cons name names ih =>
    refine ih ?_
    rw [get?_addName]
    split
    · rfl
    · rw [Option.isSome_or, h]
      rfl

/-- The unit that was entered last can be written by its symbol, unless the locale has a word like
it. -/
theorem lookup?_register {l : Locale} (t : MeasureTable) (h : l.unitAlias m.symbol = none) :
    (t.register m []).lookup? l m.symbol = some m := by
  have hname : (t.register m []).aliases.get? m.symbol = some m.symbol := by
    rw [register, List.foldl_cons, List.foldl_nil, get?_addName, if_pos rfl]
  have hsymbol : (t.register m []).symbol? l m.symbol = some m.symbol := by
    rw [symbol?, h, hname]
    rfl
  rw [lookup?, hsymbol, Option.bind_some, get?_register, if_pos rfl]

/-! ### Sound tables -/

/-- Units and names of a table fit together. -/
structure Sound (t : MeasureTable) : Prop where
  /-- A unit is stored under its own symbol. -/
  keyed : ∀ {symbol m}, t.get? symbol = some m → m.symbol = symbol
  /-- A name stands for a unit of the table. -/
  stands : ∀ {name symbol}, t.aliases.get? name = some symbol → symbol ∈ t
  /-- A symbol is a name, if not always its own. -/
  named : ∀ {symbol}, symbol ∈ t → (t.aliases.get? symbol).isSome = true

theorem sound_empty : empty.Sound :=
  ⟨nofun, nofun, fun h => absurd h Bool.false_ne_true⟩

theorem Sound.register (h : t.Sound) (m : Measure) (names : List String) :
    (t.register m names).Sound := by
  refine ⟨fun {symbol m'} hget => ?_, fun {name symbol} hget => ?_, fun {symbol} hmem => ?_⟩
  · rw [get?_register] at hget
    split at hget
    · next heq =>
      cases hget
      exact heq
    · exact h.keyed hget
  · rw [mem_register]
    rcases get?_foldl_addName hget with rfl | hget
    · exact .inl rfl
    · exact .inr (h.stands hget)
  · refine isSome_get?_foldl_addName names ?_
    rw [get?_addName]
    rcases mem_register.1 hmem with rfl | hmem
    · rw [if_pos rfl]
      rfl
    · split
      · rfl
      · rw [Option.isSome_or, h.named hmem]
        rfl

theorem Sound.enter (h : t.Sound) (units : List (Measure × List String)) :
    (t.enter units).Sound := by
  induction units generalizing t with
  | nil => exact h
  | cons u units ih => exact ih (h.register u.1 u.2)

theorem sound_builtin : builtin.Sound := sound_empty.enter Measure.catalog

/-- The words of every locale stand for built-in units. -/
theorem mem_builtin_of_unitAlias {l : Locale} (hl : l ∈ Locale.catalog)
    (h : l.unitAlias word = some symbol) : symbol ∈ builtin := by
  have hall : ∀ l ∈ Locale.catalog, ∀ a ∈ l.unitAliases,
      a.2 ∈ Measure.catalog.map (·.1.symbol) := by decide +kernel
  obtain ⟨a, ha, rfl⟩ := Option.map_eq_some_iff.1 h
  exact mem_builtin.2 (hall l hl a (List.mem_of_find?_eq_some ha))

namespace Sound
variable {l : Locale}

theorem lookup?_mem (h : t.Sound) (hm : t.lookup? l word = some m) : m.symbol ∈ t := by
  obtain ⟨symbol, -, hget⟩ := Option.bind_eq_some_iff.1 hm
  rw [h.keyed hget]
  exact mem_of_get? hget

theorem isSome_lookup? (h : t.Sound) (hl : l ∈ Locale.catalog)
    (hbuiltin : ∀ symbol ∈ builtin, symbol ∈ t) (hmem : symbol ∈ t) :
    (t.lookup? l symbol).isSome = true := by
  have hsymbol : ∃ s, t.symbol? l symbol = some s ∧ s ∈ t := by
    unfold symbol?
    cases hword : l.unitAlias symbol with
    | some s => exact ⟨s, rfl, hbuiltin s (mem_builtin_of_unitAlias hl hword)⟩
    | none =>
      obtain ⟨s, hs⟩ := Option.isSome_iff_exists.1 (h.named hmem)
      rw [hs]
      exact ⟨s, rfl, h.stands hs⟩
  obtain ⟨s, hs, hmem⟩ := hsymbol
  rw [lookup?, hs]
  exact hmem

end Sound

end MeasureTable

end Reckoner

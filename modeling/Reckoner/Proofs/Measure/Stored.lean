import Reckoner.Proofs.History
import Reckoner.Proofs.Kinds.Origin
import Reckoner.Proofs.Measure.Finding

/-!
# Units of stored values

A value in the memory carries the symbol of its unit, and the table of units may be replaced under it.
Only loading settings does that. So the symbol is in the table, or some settings have dropped it and no
later ones brought it back (`Session.Dropped`); and as long as it is in the table, no operation fails
with `Failure.unknownUnit` for it.
-/

namespace Reckoner

open Outcome (Finds)

variable {symbol : String}

/-! ### Symbols that values carry -/

/-- The kind, if it is that of a unit, is of one with a symbol in `K`. -/
def Kind.In (K : String → Prop) (k : Kind) : Prop := ∀ symbol, k = .unit symbol → K symbol

theorem Kind.In.imp {K L : String → Prop} {k : Kind} (h : k.In K) (hKL : ∀ {symbol}, K symbol → L symbol) :
    k.In L := fun symbol hk => hKL (h symbol hk)

theorem Kind.number_in (K : String → Prop) : Kind.number.In K := nofun

/-- A value in the memory is an amount of the unit `symbol`. -/
def Memory.Carries (m : Memory) (symbol : String) : Prop :=
  (∃ name v, m.bindings.get? name = some v ∧ v.kind = .unit symbol) ∨
    ∃ e ∈ m.history, e.result.kind = .unit symbol

theorem Memory.All.of_carries {m : Memory} {K : String → Prop} (h : m.All (Value.Of (Kind.In K)))
    (hcarries : m.Carries symbol) : K symbol := by
  rcases hcarries with ⟨name, v, hv, hkind⟩ | ⟨e, he, hkind⟩
  · exact h.bindings hv symbol hkind
  · exact h.history he symbol hkind

theorem Units.resolve?_in {u : Units} (hsound : u.table.Sound) {word : String} {k : Kind}
    (h : u.resolve? word = some k) : k.In (· ∈ u.table) := by
  unfold resolve? at h
  split at h
  · next m hm =>
    cases h
    rintro symbol ⟨⟩
    exact hsound.lookup?_mem hm
  · obtain ⟨code, -, rfl⟩ := Option.map_eq_some_iff.1 h
    exact nofun

namespace Settings

theorem variableValues_in {u : Units} (hsound : u.table.Sound) :
    ∀ {es : List (String × VariableSetting)} {vs : List (String × Value)},
      variableValues u es = .ok vs → ∀ e ∈ vs, e.2.Of (Kind.In (· ∈ u.table))
  | [], vs, h => by
    cases h
    exact List.forall_mem_nil _
  | (name, v) :: es, vs, h => by
    unfold variableValues at h
    cases hvalue : variableValue u name v with
    | error e =>
      rw [hvalue] at h
      cases h
    | ok value =>
      cases hrest : variableValues u es with
      | error e =>
        rw [hvalue, hrest] at h
        cases h
      | ok rest =>
        rw [hvalue, hrest] at h
        cases h
        refine List.forall_mem_cons.2 ⟨?_, variableValues_in hsound hrest⟩
        obtain ⟨kind, hkind, rfl⟩ := variableValue_eq_ok hvalue
        unfold variableKind at hkind
        split at hkind
        · cases hkind
          exact Kind.number_in _
        · split at hkind
          · next k hk =>
            cases hkind
            exact Units.resolve?_in hsound hk
          · cases hkind

end Settings

namespace Session
variable {s s' : Session} {op : Operation} {r : Outcome Reply} {ops : List Operation}

/-- The table holds the built-in units and some that were entered, and the locale is a known one. -/
structure Grounded (s : Session) : Prop where
  table : ∃ units, s.memory.table = MeasureTable.builtin.enter units
  locale : s.shared.locale ∈ Locale.catalog

theorem Grounded.sound (h : s.Grounded) : s.memory.table.Sound := by
  obtain ⟨units, htable⟩ := h.table
  exact htable ▸ MeasureTable.sound_builtin.enter units

theorem Grounded.builtin (h : s.Grounded) (hmem : symbol ∈ MeasureTable.builtin) :
    symbol ∈ s.memory.table := by
  obtain ⟨units, htable⟩ := h.table
  exact htable ▸ MeasureTable.mem_enter.2 (.inr hmem)

/-- A unit of the table can be written by its symbol. -/
theorem Grounded.knows (h : s.Grounded) (hmem : symbol ∈ s.memory.table) : s.units.Knows symbol := by
  refine ⟨hmem, ?_⟩
  have hlookup := h.sound.isSome_lookup? h.locale (fun _ => h.builtin) hmem
  obtain ⟨m, hm⟩ := Option.isSome_iff_exists.1 hlookup
  have hresolve : s.units.resolve? symbol = some (.unit m.symbol) := by
    unfold Units.resolve? units
    dsimp only
    rw [hm]
  rw [hresolve]
  rfl

theorem grounded_new : new.Grounded := ⟨⟨[], rfl⟩, List.mem_cons_self ..⟩

theorem Effect.grounded (h : Effect s op r s') (hs : s.Grounded) : s'.Grounded := by
  refine ⟨?_, ?_⟩
  · cases h with
    | answered op text st =>
      obtain ⟨units, htable⟩ := hs.table
      refine ⟨units, ?_⟩
      rw [← htable]
      dsimp only [Memory.record, Statement.bindIn]
      cases st.assignment <;> rfl
    | loaded path content f p file prepares =>
      obtain ⟨-, htable⟩ := Settings.enterCategories_eq_ok prepares.table
      refine ⟨f.measures, ?_⟩
      rw [Prepared.applyMemory_eq]
      exact htable
    | _ => exact hs.table
  · cases h with
    | loaded path content f p file prepares =>
      have hlocale := Settings.locale?_eq_ok prepares.locale
      rw [Prepared.applyShared]
      split at hlocale
      · rw [hlocale]
        exact hs.locale
      · obtain ⟨l, hfind, hp⟩ := hlocale
        rw [hp]
        exact Locale.mem_catalog_of_find? hfind
    | localized code l found => exact Locale.mem_catalog_of_find? found
    | _ => exact hs.locale

theorem grounded_run_new (ops : List Operation) : (run new ops).Grounded :=
  Effect.run Effect.grounded ops grounded_new

/-- Values carry symbols that values carried before, and those of units in the table, be it the one
before or the one after. -/
theorem Effect.all_in {K : String → Prop} (h : Effect s op r s') (hs : s.Grounded)
    (hold : ∀ symbol ∈ s.memory.table, K symbol) (hnew : ∀ symbol ∈ s'.memory.table, K symbol)
    (hall : s.memory.All (Value.Of (Kind.In K))) : s'.memory.All (Value.Of (Kind.In K)) := by
  have hword : ∀ {word k}, s.units.resolve? word = some k → k.In K := fun hk =>
    (Units.resolve?_in hs.sound hk).imp fun {symbol} => hold symbol
  cases h with
  | refused op e => exact hall
  | answered op text st a input reads value =>
    have hoffers : Scope.Offers (Kind.In K) ⟨s.memory, s.shared.locale⟩ :=
      ⟨Kind.number_in K, hword, hall⟩
    have hvalue : a.value.Of (Kind.In K) := st.gives_kind_valueIn hoffers _ value
    exact (hall.bindIn st hvalue).record _ _ hvalue
  | previewed text a => exact hall
  | bound name amount unit kind finite resolves =>
    refine hall.bind name (?_ : kind.In K)
    unfold kindOf at resolves
    split at resolves
    · cases resolves
      exact Kind.number_in K
    · split at resolves
      · next k hk =>
        cases resolves
        exact hword hk
      · exact nomatch resolves
  | loaded path content f p file prepares =>
    have hsound : p.table.Sound := by
      obtain ⟨-, htable⟩ := Settings.enterCategories_eq_ok prepares.table
      exact htable ▸ MeasureTable.sound_builtin.enter f.measures
    have hvalues : ∀ e ∈ p.bindings, e.2.Of (Kind.In K) := fun e he =>
      (Settings.variableValues_in hsound prepares.bindings e he).imp fun {symbol} hmem =>
        hnew symbol (by rwa [Prepared.applyMemory_eq])
    have happlied := hall.applyMemory hvalues
    exact ⟨happlied.bindings, happlied.history⟩
  | rated payload rates => exact ⟨hall.bindings, hall.history⟩
  | localized code l => exact hall
  | clearedVariables => exact hall.clearVariables
  | clearedHistory => exact hall.clearHistory

/-! ### Symbols over a run -/

/-- Some settings loaded in the run replaced a table with the unit by one without it, and since then
no table had it. -/
def Dropped (ops : List Operation) (symbol : String) : Prop :=
  ∃ early path content late, ops = early ++ .loadSettings path content :: late ∧
    symbol ∈ (run new early).memory.table ∧
    ∀ later, later <+: late →
      symbol ∉ (run new (early ++ .loadSettings path content :: later)).memory.table

/-- The unit is in the table after the run, or was dropped from it. -/
def Known (ops : List Operation) (symbol : String) : Prop :=
  symbol ∈ (run new ops).memory.table ∨ Dropped ops symbol

/-- A unit stays known: it leaves the table by being dropped only. -/
theorem Known.concat (h : Known ops symbol) (op : Operation) : Known (ops ++ [op]) symbol := by
  by_cases hnow : symbol ∈ (run new (ops ++ [op])).memory.table
  · exact .inl hnow
  · refine .inr ?_
    rcases h with hmem | ⟨early, path, content, late, rfl, hmem, hlate⟩
    · -- the table has changed, so this operation has loaded settings
      have htable := (effect_perform (run new ops) op).table
      rw [run_concat] at hnow
      rcases htable with hkept | ⟨path, content, rfl⟩
      · rw [step, hkept] at hnow
        exact absurd hmem hnow
      · refine ⟨ops, path, content, [], rfl, hmem, fun later hlater => ?_⟩
        rw [List.prefix_nil.1 hlater, run_concat]
        exact hnow
    · refine ⟨early, path, content, late ++ [op], by simp, hmem, fun later hlater => ?_⟩
      rcases List.prefix_concat_iff.1 hlater with rfl | hlater
      · rwa [List.append_assoc, List.cons_append] at hnow
      · exact hlate later hlater

theorem all_known_run_new (ops : List Operation) :
    (run new ops).memory.All (Value.Of (Kind.In (Known ops))) := by
  induction ops using List.reverseRecOn with
  | nil => exact .new
  | append_singleton ops op ih =>
    have hold : ∀ symbol ∈ (run new ops).memory.table, Known (ops ++ [op]) symbol :=
      fun _ hmem => Known.concat (.inl hmem) op
    have hnew : ∀ symbol ∈ (run new (ops ++ [op])).memory.table, Known (ops ++ [op]) symbol :=
      fun _ hmem => .inl hmem
    have hall := ih.imp fun v hv => hv.imp fun {symbol} hknown => hknown.concat op
    rw [run_concat] at hnew ⊢
    exact (effect_perform (run new ops) op).all_in (grounded_run_new ops) hold hnew hall

/-! ### Failures -/

theorem finds_kindOf (h : s.units.Knows symbol) (unit : Option String) :
    Finds symbol (s.kindOf unit) := by
  unfold kindOf
  split
  · exact .ok _
  · split
    · exact .ok _
    · next hword =>
      refine .error ?_
      rintro ⟨⟩
      exact h.ne_of_resolve? hword rfl

theorem finds_evaluate (h : s.units.Knows symbol) (text : String) :
    Finds symbol ((evaluate text).exec s).1 := by
  have hread : Finds symbol (Statement.ofInput s.shared.locale text) :=
    Statement.finds_ofInput _ _
  rw [exec_evaluate]
  cases hst : Statement.ofInput s.shared.locale text with
  | error e =>
    rw [hst] at hread
    exact .error hread.ne
  | ok st =>
    have hvalue := st.finds_valueIn (m := s.memory) (l := s.shared.locale) h
    dsimp only
    cases hv : st.valueIn s.memory s.shared.locale with
    | error e =>
      rw [hv] at hvalue
      exact .error hvalue.ne
    | ok v => exact .ok _

theorem finds_perform (h : s.units.Knows symbol) (op : Operation) :
    Finds symbol ((perform op).exec s).1 := by
  cases op with
  | evaluate text =>
    simp only [perform, Action.exec_map]
    exact (finds_evaluate h text).map _
  | evaluateBytes bytes =>
    simp only [perform, Action.exec_map, exec_evaluateBytes]
    split
    · exact .error (by rintro ⟨⟩)
    · split
      · exact .error (by rintro ⟨⟩)
      · exact (finds_evaluate h _).map _
  | preview text =>
    -- a preview has the outcome of an evaluation whose session is dropped
    have hpreview : s.preview text = ((evaluate text).exec s).1 := by
      simp only [evaluate, onMemory, Action.exec_bind, Action.exec_get, Action.exec_onPart]
      rfl
    have hanswer := finds_evaluate h text
    rw [← hpreview] at hanswer
    simp only [perform, Action.exec_bind, Action.exec_get, Action.exec_lift]
    cases ha : s.preview text with
    | error e =>
      rw [ha] at hanswer
      exact .error hanswer.ne
    | ok a => exact .ok _
  | setVariable name amount unit =>
    have hkind := finds_kindOf h unit
    simp only [perform, Action.exec_bind, exec_setVariable]
    by_cases hfinite : amount.isFinite = true
    · rw [if_pos hfinite]
      cases hk : s.kindOf unit with
      | error e =>
        rw [hk] at hkind
        exact .error hkind.ne
      | ok kind =>
        dsimp only
        cases checkName name with
        | error e => exact .error (by rintro ⟨⟩)
        | ok _ => exact .ok _
    · rw [if_neg hfinite]
      exact .error (by rintro ⟨⟩)
  | loadSettings path content =>
    simp only [perform, Action.exec_bind, exec_loadSettings]
    cases (Settings.ofFile path content).bind (·.prepare s.shared.locale) with
    | error e => exact .error (by rintro ⟨⟩)
    | ok p => exact .ok _
  | setRates payload =>
    simp only [perform, Action.exec_map, exec_setRates]
    cases RateSet.ofJson payload with
    | error e => exact .error (by rintro ⟨⟩)
    | ok rates => exact .ok _
  | setLocale code =>
    simp only [perform, Action.exec_bind, exec_setLocale]
    cases Locale.find? code with
    | none => exact .error (by rintro ⟨⟩)
    | some l => exact .ok _
  | clearVariables => exact .ok _
  | clearHistory => exact .ok _

/-- After any run on a new session, the unit of every variable and of every result is in the table,
unless settings that were loaded in the run have dropped it; and no operation on the session fails
with `Failure.unknownUnit` for a symbol that is in the table. Settings that name a unit which their
own table lacks are refused with a failure of another kind. -/
theorem run_new_carries (ops : List Operation) :
    let s := run new ops
    (∀ symbol, s.memory.Carries symbol → symbol ∈ s.memory.table ∨ Dropped ops symbol) ∧
      ∀ symbol ∈ s.memory.table, ∀ op, ((perform op).exec s).1 ≠ .error (.unknownUnit symbol) :=
  ⟨fun _ hcarries => (all_known_run_new ops).of_carries hcarries,
    fun _ hmem op => finds_perform ((grounded_run_new ops).knows hmem) op⟩

theorem kindOf_eq_ok {unit : Option String} {word : String} {m : Measure}
    (hword : (unit.map Text.trimmed).filter (· != "") = some word)
    (hm : s.memory.table.lookup? s.shared.locale word = some m) :
    s.kindOf unit = .ok (.unit m.symbol) := by
  have hresolve : s.units.resolve? word = some (.unit m.symbol) := by
    rw [Units.resolve?, units, hm]
  rw [kindOf, hword]
  dsimp only
  rw [hresolve]

theorem step_setVariable {name : String} {amount : Float} {unit : Option String} {kind : Kind}
    (hfinite : amount.isFinite = true) (hkind : s.kindOf unit = .ok kind)
    (hname : checkName name = .ok ()) :
    s.step (.setVariable name amount unit) =
      { s with memory := s.memory.bind name ⟨amount, kind⟩ } := by
  rw [step, perform, Action.exec_bind, exec_setVariable, if_pos hfinite, hkind]
  dsimp only
  rw [hname]
  rfl

/-- Settings without custom units drop the unit of a variable, which then cannot be added. -/
theorem run_new_carries_dropped :
    let furlongs := "\x7b\"custom_units\":\x7b\"length\":\x7b\"furlong\":201\x7d\x7d\x7d"
    let s := run new [.loadSettings "a.json" (some furlongs), .setVariable "x" 3 (some "furlong"),
      .loadSettings "b.json" (some "\x7b\x7d")]
    s.memory.Carries "furlong" ∧ "furlong" ∉ s.memory.table ∧
      ((perform (.evaluate "x + x")).exec s).1 = .error (.unknownUnit "furlong") := by
  intro furlongs s
  let furlong : Measure := ⟨"furlong", .length, 201, 0⟩
  let s₁ := new.step (.loadSettings "a.json" (some furlongs))
  -- the words of a table are too many to be computed, hence the lemma on the unit entered last
  have hlookup : s₁.memory.table.lookup? s₁.shared.locale "furlong" = some furlong := by
    let f : Settings := { Settings.standard with
      customUnits := Dictionary.empty.insert "length" (Dictionary.empty.insert "furlong" 201) }
    have hfile : Settings.ofFile "a.json" (some furlongs) = .ok f := by decide +kernel
    have hmeasures : f.measures = [(furlong, [])] := by decide +kernel
    have hdone : ((perform (.loadSettings "a.json" (some furlongs))).exec new).1 = .ok .done := by
      decide +kernel
    have hword : s₁.shared.locale.unitAlias "furlong" = none := by decide +kernel
    rw [table_step_loadSettings hfile hdone, hmeasures]
    exact MeasureTable.lookup?_register (m := furlong) .builtin hword
  have hset : s₁.step (.setVariable "x" 3 (some "furlong")) =
      { s₁ with memory := s₁.memory.bind "x" ⟨3, .unit "furlong"⟩ } :=
    step_setVariable (by decide +kernel) (kindOf_eq_ok (by decide +kernel) hlookup)
      (by decide +kernel)
  have hs : s = ({ s₁ with memory := s₁.memory.bind "x" ⟨3, .unit "furlong"⟩ } : Session).step
      (.loadSettings "b.json" (some "\x7b\x7d")) := by
    rw [← hset]
    rfl
  rw [hs]
  refine ⟨.inl ⟨"x", ⟨3, .unit "furlong"⟩, ?_, rfl⟩, ?_, ?_⟩
  · decide +kernel
  · decide +kernel
  · decide +kernel

end Session

end Reckoner

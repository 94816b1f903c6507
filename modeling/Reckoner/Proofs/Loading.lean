import Reckoner.Proofs.Currency.RateSet
import Reckoner.Proofs.Measure.Table

/-!
# Loading settings

Settings are prepared before anything is written, so a load that fails leaves the session as it was.
`Session.Loaded` says what a load that succeeds leaves: the built-in units and those of the file, the
limit, the variables, the rates and the locale of the file, and of everything else what there was
before. Preparing reads nothing of a session but its locale, and not even that once the settings name
their own (`Settings.Prepares.again`); so loading a file again changes nothing more.
-/

namespace Reckoner

/-! ### Units of the settings -/

namespace Settings

/-- A unit that may be entered: a positive factor, and no temperature. -/
def Admits (m : Measure) : Prop :=
  m.factor.isFinite = true ∧ 0 < m.factor ∧ m.category ≠ .temperature

/-- The units of a category with their factors. They have no offset and no further names. -/
def measuresOf (category : String) (units : List (String × Float)) : List (Measure × List String) :=
  units.map fun u => (⟨u.1, .ofName category, u.2, 0⟩, [])

/-- The units of the settings, in the order in which they are entered. -/
def measures (s : Settings) : List (Measure × List String) :=
  s.customUnits.entries.flatMap fun c => measuresOf c.1 c.2.entries

theorem addCustom_eq_ok {t t' : MeasureTable} {category : Category} {name : String} {factor : Float}
    (h : t.addCustom category name factor = .ok t') :
    Admits ⟨name, category, factor, 0⟩ ∧ t' = t.register ⟨name, category, factor, 0⟩ [] := by
  unfold MeasureTable.addCustom at h
  split at h
  · exact nomatch h
  · next hfactor =>
    split at h
    · exact nomatch h
    · next hcategory =>
      cases h
      simp only [Bool.not_eq_true', Bool.not_eq_false, Bool.and_eq_true, decide_eq_true_eq]
        at hfactor
      exact ⟨⟨hfactor.1, hfactor.2, hcategory⟩, rfl⟩

theorem enterUnits_eq_ok {category : String} : ∀ {units : List (String × Float)}
    {t t' : MeasureTable}, enterUnits category t units = .ok t' →
      (∀ u ∈ measuresOf category units, Admits u.1) ∧ t' = t.enter (measuresOf category units)
  | [], t, t', h => by
    cases h
    exact ⟨List.forall_mem_nil _, rfl⟩
  | (name, factor) :: units, t, t', h => by
    unfold enterUnits at h
    cases hadd : t.addCustom (.ofName category) name factor with
    | error e =>
      rw [hadd] at h
      exact nomatch h
    | ok t₁ =>
      rw [hadd] at h
      obtain ⟨hadmits, rfl⟩ := addCustom_eq_ok hadd
      obtain ⟨hrest, rfl⟩ := enterUnits_eq_ok h
      exact ⟨List.forall_mem_cons.2 ⟨hadmits, hrest⟩, rfl⟩

theorem enterCategories_eq_ok : ∀ {categories : List (String × Dictionary Float)}
    {t t' : MeasureTable}, enterCategories t categories = .ok t' →
      let units := categories.flatMap fun c => measuresOf c.1 c.2.entries
      (∀ u ∈ units, Admits u.1) ∧ t' = t.enter units
  | [], t, t', h => by
    cases h
    exact ⟨List.forall_mem_nil _, rfl⟩
  | (category, units) :: rest, t, t', h => by
    unfold enterCategories at h
    cases henter : enterUnits category t units.entries with
    | error e =>
      rw [henter] at h
      exact nomatch h
    | ok t₁ =>
      rw [henter] at h
      obtain ⟨hadmits, rfl⟩ := enterUnits_eq_ok henter
      obtain ⟨hrest, rfl⟩ := enterCategories_eq_ok h
      refine ⟨?_, ?_⟩
      · rw [List.flatMap_cons]
        exact List.forall_mem_append.2 ⟨hadmits, hrest⟩
      · rw [List.flatMap_cons, MeasureTable.enter, MeasureTable.enter, MeasureTable.enter,
          List.foldl_append]

/-! ### Variables of the settings -/

/-- A variable of the settings has the amount that is written, in the kind that its word names. -/
theorem variableValue_eq_ok {u : Units} {name : String} {v : VariableSetting} {value : Value}
    (h : variableValue u name v = .ok value) :
    ∃ kind, variableKind u v = .ok kind ∧ value = ⟨v.value, kind⟩ := by
  unfold variableValue at h
  split at h
  · exact nomatch h
  · split at h
    · cases hkind : variableKind u v with
      | error e =>
        rw [hkind] at h
        exact nomatch h
      | ok kind =>
        rw [hkind] at h
        cases h
        exact ⟨kind, rfl, rfl⟩
    · exact nomatch h

/-- The names of the variables stay, in their order, and each has its value. -/
theorem variableValues_eq_ok {u : Units} : ∀ {es : List (String × VariableSetting)}
    {vs : List (String × Value)}, variableValues u es = .ok vs →
      vs.map (·.1) = es.map (·.1) ∧
        ∀ name v, lookupEntry name es = some v →
          ∃ kind, variableKind u v = .ok kind ∧ lookupEntry name vs = some ⟨v.value, kind⟩
  | [], vs, h => by
    cases h
    exact ⟨rfl, nofun⟩
  | (key, w) :: es, vs, h => by
    unfold variableValues at h
    cases hvalue : variableValue u key w with
    | error e =>
      rw [hvalue] at h
      cases h
    | ok value =>
      cases hrest : variableValues u es with
      | error e =>
        rw [hvalue, hrest] at h
        cases h
      | ok rest =>
        rw [hvalue, hrest] at h
        cases h
        obtain ⟨hnames, hvalues⟩ := variableValues_eq_ok hrest
        refine ⟨congrArg (key :: ·) hnames, fun name v hv => ?_⟩
        rw [lookupEntry] at hv ⊢
        by_cases hkey : key = name
        · rw [if_pos hkey] at hv ⊢
          cases hv
          obtain ⟨kind, hkind, rfl⟩ := variableValue_eq_ok hvalue
          exact ⟨kind, hkind, rfl⟩
        · rw [if_neg hkey] at hv ⊢
          exact hvalues name v hv

/-! ### Preparing -/

/-- What settings become when they are prepared under a locale. -/
structure Prepares (s : Settings) (active : Locale) (p : Prepared) : Prop where
  locale : s.locale? = .ok p.locale
  table : enterCategories .builtin s.customUnits.entries = .ok p.table
  rates : s.rateSet? = .ok p.rates
  bindings : variableValues ⟨p.table, p.rates, p.locale.getD active⟩ s.bindings.entries =
    .ok p.bindings
  limit : p.limit = s.historyLimit.toNat
  ratesDate : p.ratesDate = (s.ratesUpdated <|> p.rates.map (·.date))

theorem prepare_eq_ok_iff {s : Settings} {active : Locale} {p : Prepared} :
    s.prepare active = .ok p ↔ s.Prepares active p := by
  constructor
  · intro h
    obtain ⟨locale, hlocale, h⟩ := bind_eq_ok_iff.1 h
    obtain ⟨table, htable, h⟩ := bind_eq_ok_iff.1 h
    obtain ⟨rates, hrates, h⟩ := bind_eq_ok_iff.1 h
    obtain ⟨bindings, hbindings, h⟩ := bind_eq_ok_iff.1 h
    cases h
    exact ⟨hlocale, htable, hrates, hbindings, rfl, rfl⟩
  · rintro ⟨hlocale, htable, hrates, hbindings, hlimit, hdate⟩
    refine bind_eq_ok_iff.2 ⟨_, hlocale, bind_eq_ok_iff.2 ⟨_, htable, ?_⟩⟩
    refine bind_eq_ok_iff.2 ⟨_, hrates, bind_eq_ok_iff.2 ⟨_, hbindings, ?_⟩⟩
    rw [← hlimit, ← hdate]
    rfl

/-- Settings that put a locale into effect are prepared under it as they were before. -/
theorem Prepares.again {s : Settings} {active : Locale} {p : Prepared} (h : s.Prepares active p) :
    s.Prepares (p.locale.getD active) p := by
  refine { h with bindings := ?_ }
  cases hlocale : p.locale with
  | none =>
    have hbindings := h.bindings
    rwa [hlocale] at hbindings
  | some l =>
    have hbindings := h.bindings
    rwa [hlocale] at hbindings

theorem locale?_eq_ok {s : Settings} {l : Option Locale} (h : s.locale? = .ok l) :
    match s.locale with
    | none => l = none
    | some code => ∃ l', Locale.find? code = some l' ∧ l = some l' := by
  unfold locale? at h
  cases hcode : s.locale with
  | none =>
    rw [hcode] at h
    cases h
    rfl
  | some code =>
    rw [hcode] at h
    dsimp only at h ⊢
    cases hfind : Locale.find? code with
    | none =>
      rw [hfind] at h
      exact nomatch h
    | some l' =>
      rw [hfind] at h
      cases h
      exact ⟨l', rfl, rfl⟩

theorem rateSet?_eq_ok {s : Settings} {rates : Option RateSet} (h : s.rateSet? = .ok rates) :
    match s.rates with
    | none => rates = none
    | some r => ∃ set, r.toSet = .ok set ∧ rates = some set := by
  unfold rateSet? at h
  cases hr : s.rates with
  | none =>
    rw [hr] at h
    cases h
    rfl
  | some r =>
    rw [hr] at h
    dsimp only at h ⊢
    cases hset : r.toSet with
    | error e =>
      rw [hset] at h
      exact nomatch h
    | ok set =>
      rw [hset] at h
      cases h
      exact ⟨set, rfl, rfl⟩

/-- The rates that settings put into effect have the date that the settings give for them. -/
theorem Prepares.date_rates {s : Settings} {active : Locale} {p : Prepared}
    (h : s.Prepares active p) : p.rates.map (·.date) = s.rates.map (·.date) := by
  have hrates := rateSet?_eq_ok h.rates
  cases hr : s.rates with
  | none =>
    rw [hr] at hrates
    rw [hrates]
    rfl
  | some r =>
    rw [hr] at hrates
    obtain ⟨set, hset, hp⟩ := hrates
    rw [hp, Option.map_some, Option.map_some, RateRecord.date_of_toSet hset]

end Settings

/-! ### Applying -/

theorem Memory.foldl_bind (vs : List (String × Value)) (m : Memory) :
    vs.foldl (fun m e => m.bind e.1 e.2) m =
      { m with bindings := vs.foldl (fun d e => d.insert e.1 e.2) m.bindings } := by
  induction vs generalizing m with
  | nil => rfl
  | cons e vs ih => exact ih (m.bind e.1 e.2)

theorem Memory.latest_of_length_le {limit : Nat} {history : List Entry}
    (h : history.length ≤ limit) : latest limit history = history := by
  rw [latest, Nat.sub_eq_zero_of_le h, List.drop_zero]

theorem Memory.latest_latest (limit : Nat) (history : List Entry) :
    latest limit (latest limit history) = latest limit history :=
  latest_of_length_le (length_latest limit history ▸ Nat.min_le_left ..)

namespace Prepared
variable {p : Prepared}

theorem applyMemory_eq (p : Prepared) (m : Memory) :
    p.applyMemory m =
      { m with
        table := p.table
        limit := max p.limit 1
        history := Memory.latest (max p.limit 1) m.history
        bindings := p.bindings.foldl (fun d e => d.insert e.1 e.2) m.bindings
        rates := p.rates <|> m.rates } := by
  unfold applyMemory
  dsimp only
  rw [Memory.foldl_bind]
  rfl

theorem get?_applyMemory (h : (p.bindings.map (·.1)).Nodup) (m : Memory) (name : String) :
    (p.applyMemory m).bindings.get? name =
      (lookupEntry name p.bindings).or (m.bindings.get? name) := by
  rw [applyMemory_eq]
  exact Dictionary.get?_foldl_insert name h m.bindings

theorem applyMemory_again (h : (p.bindings.map (·.1)).Nodup) (m : Memory) (path : Option String) :
    p.applyMemory { p.applyMemory m with settingsPath := path } =
      { p.applyMemory m with settingsPath := path } := by
  have hbindings : p.bindings.foldl (fun d e => d.insert e.1 e.2) (p.applyMemory m).bindings =
      (p.applyMemory m).bindings := by
    refine Dictionary.ext_get? fun name => ?_
    rw [Dictionary.get?_foldl_insert name h, get?_applyMemory h]
    cases lookupEntry name p.bindings <;> rfl
  have hhistory : Memory.latest (max p.limit 1) (p.applyMemory m).history =
      (p.applyMemory m).history := by
    rw [applyMemory_eq]
    exact Memory.latest_latest ..
  have hrates : (p.rates <|> (p.applyMemory m).rates) = (p.applyMemory m).rates := by
    rw [applyMemory_eq]
    cases p.rates <;> rfl
  have htable : (p.applyMemory m).table = p.table := by rw [applyMemory_eq]
  have hlimit : (p.applyMemory m).limit = max p.limit 1 := by rw [applyMemory_eq]
  rw [applyMemory_eq p { p.applyMemory m with settingsPath := path }]
  dsimp only
  rw [hbindings, hhistory, hrates, ← htable, ← hlimit]

theorem applyShared_applyShared (p : Prepared) (s : Shared) :
    p.applyShared (p.applyShared s) = p.applyShared s := by
  unfold applyShared
  cases p.locale <;> cases p.ratesDate <;> rfl

end Prepared

namespace Session
variable {s s' : Session} {path : String} {content : Option String} {f : Settings}

theorem exec_loadSettings (s : Session) (path : String) (content : Option String) :
    (loadSettings path content).exec s =
      match (Settings.ofFile path content).bind (·.prepare s.shared.locale) with
      | .error e => (.error (.settings e), s)
      | .ok p =>
        (.ok (), ⟨{ p.applyMemory s.memory with settingsPath := some path },
          p.applyShared s.shared⟩) := by
  simp only [loadSettings, onShared, onMemory, Action.exec_bind, Action.exec_get, Action.exec_lift,
    Action.exec_onPart, Action.exec_modify]
  cases (Settings.ofFile path content).bind (·.prepare s.shared.locale) <;> rfl

/-- The change from `s` to `s'` by the settings `f` of the file at `path`. -/
structure Loaded (s : Session) (path : String) (f : Settings) (s' : Session) : Prop where
  /-- The units are the built-in ones and those of the file. -/
  table : s'.memory.table = MeasureTable.builtin.enter f.measures
  admitted : ∀ u ∈ f.measures, Settings.Admits u.1
  limit : s'.memory.limit = max 1 f.historyLimit.toNat
  /-- Of the history the newest results stay. -/
  history : s'.memory.history <:+ s.memory.history
  length : s'.memory.history.length = min s'.memory.limit s.memory.history.length
  nextSequence : s'.memory.nextSequence = s.memory.nextSequence
  /-- A variable of the file gets its amount, in the kind that its word names by the units, the
  rates and the locale of the file. -/
  bound : ∀ name v, f.bindings.get? name = some v → ∃ kind,
    Settings.variableKind ⟨s'.memory.table, f.rates.bind (·.toSet.toOption), s'.shared.locale⟩ v =
      .ok kind ∧ s'.memory.bindings.get? name = some ⟨v.value, kind⟩
  kept : ∀ name, f.bindings.get? name = none →
    s'.memory.bindings.get? name = s.memory.bindings.get? name
  rates : ∀ r, f.rates = some r → ∃ set, r.toSet = .ok set ∧ s'.memory.rates = some set
  ratesKept : f.rates = none → s'.memory.rates = s.memory.rates
  locale : ∀ code, f.locale = some code → Locale.find? code = some s'.shared.locale
  localeKept : f.locale = none → s'.shared.locale = s.shared.locale
  ratesDate : s'.shared.ratesDate =
    (f.ratesUpdated <|> f.rates.map (·.date) <|> s.shared.ratesDate)
  lastFetch : s'.shared.lastFetch = s.shared.lastFetch
  settingsPath : s'.memory.settingsPath = some path

theorem loaded_of_prepares {p : Prepared} (h : f.Prepares s.shared.locale p) (path : String) :
    Loaded s path f ⟨{ p.applyMemory s.memory with settingsPath := some path },
      p.applyShared s.shared⟩ := by
  obtain ⟨hadmits, htable⟩ := Settings.enterCategories_eq_ok h.table
  obtain ⟨hnames, hvalues⟩ := Settings.variableValues_eq_ok h.bindings
  have hnodup : (p.bindings.map (·.1)).Nodup := hnames ▸ f.bindings.ascending.nodup_keys
  have hlocale := Settings.locale?_eq_ok h.locale
  have hrates := Settings.rateSet?_eq_ok h.rates
  -- the words of variables are resolved by the rates of the file, not by those in effect before
  have hown : f.rates.bind (·.toSet.toOption) = p.rates := by
    cases hr : f.rates with
    | none =>
      rw [hr] at hrates
      exact hrates.symm
    | some r =>
      rw [hr] at hrates
      obtain ⟨set, hset, hp⟩ := hrates
      rw [hp, Option.bind_some, hset]
      rfl
  have hdate := h.date_rates
  have hget := Prepared.get?_applyMemory hnodup s.memory
  rw [Prepared.applyMemory_eq] at hget ⊢
  refine {
    table := htable
    admitted := hadmits
    limit := ?limit
    history := List.drop_suffix ..
    length := Memory.length_latest ..
    nextSequence := rfl
    bound := ?bound
    kept := ?kept
    rates := ?rates
    ratesKept := ?ratesKept
    locale := ?locale
    localeKept := ?localeKept
    ratesDate := ?ratesDate
    lastFetch := rfl
    settingsPath := rfl }
  case limit =>
    dsimp only
    rw [h.limit, Nat.max_comm]
  case bound =>
    intro name v hv
    obtain ⟨kind, hkind, hlookup⟩ := hvalues name v hv
    refine ⟨kind, ?_, (hget name).trans (by rw [hlookup]; rfl)⟩
    rw [hown]
    exact hkind
  case kept =>
    intro name hname
    have hnone : lookupEntry name p.bindings = none := by
      rw [lookupEntry_eq_none_iff, hnames, ← lookupEntry_eq_none_iff]
      exact hname
    exact (hget name).trans (by rw [hnone]; rfl)
  case rates =>
    intro r hr
    rw [hr] at hrates
    obtain ⟨set, hset, hp⟩ := hrates
    exact ⟨set, hset, by rw [hp]; rfl⟩
  case ratesKept =>
    intro hr
    rw [hr] at hrates
    dsimp only
    rw [hrates]
    rfl
  case locale =>
    intro code hcode
    rw [hcode] at hlocale
    obtain ⟨l, hfind, hp⟩ := hlocale
    rw [Prepared.applyShared, hp]
    exact hfind
  case localeKept =>
    intro hcode
    rw [hcode] at hlocale
    rw [Prepared.applyShared, hlocale]
    rfl
  case ratesDate =>
    rw [Prepared.applyShared, h.ratesDate, hdate]
    cases f.ratesUpdated <;> rfl

/-- Loading settings either fails and leaves the whole session as it was, or has the effect `Loaded`.
Once that is done, loading the same file again succeeds and changes nothing. -/
theorem exec_loadSettings_effect (s : Session) (path : String) (content : Option String) :
    (∃ e, (loadSettings path content).exec s = (.error (.settings e), s)) ∨
      ∃ f s', Settings.ofFile path content = .ok f ∧
        (loadSettings path content).exec s = (.ok (), s') ∧ Loaded s path f s' ∧
        (loadSettings path content).exec s' = (.ok (), s') := by
  rw [exec_loadSettings]
  cases hprepare : (Settings.ofFile path content).bind (·.prepare s.shared.locale) with
  | error e => exact .inl ⟨e, rfl⟩
  | ok p =>
    obtain ⟨f, hfile, hp⟩ := bind_eq_ok_iff.1 hprepare
    have h := Settings.prepare_eq_ok_iff.1 hp
    have hnames := (Settings.variableValues_eq_ok h.bindings).1
    have hnodup : (p.bindings.map (·.1)).Nodup := hnames ▸ f.bindings.ascending.nodup_keys
    refine .inr ⟨f, _, hfile, rfl, loaded_of_prepares h path, ?_⟩
    have hagain : (Settings.ofFile path content).bind
        (·.prepare (p.applyShared s.shared).locale) = .ok p :=
      bind_eq_ok_iff.2 ⟨f, hfile, Settings.prepare_eq_ok_iff.2 h.again⟩
    rw [exec_loadSettings]
    dsimp only
    rw [hagain]
    dsimp only
    rw [Prepared.applyShared_applyShared, Prepared.applyMemory_again hnodup]

end Session

end Reckoner

import Reckoner.Proofs.Loading

/-!
# What operations do to a session

`Session.Effect` lists everything that an operation can reply and leave behind, each case with the
checks that were passed before it (`effect_perform`). A property of sessions that every effect keeps
is kept by every run; and only loading settings changes the table of units.
-/

namespace Reckoner

/-- The text that an operation answers; nothing if it answers none. -/
def Operation.input? : Operation → Option String
  | .evaluate text => some text
  | .evaluateBytes bytes => (Utf8.decode bytes).toOption.map String.ofList
  | _ => none

namespace Session
variable {s s' : Session}

/-! ### Each operation -/

theorem exec_evaluate (s : Session) (text : String) :
    (evaluate text).exec s =
      match Statement.ofInput s.shared.locale text with
      | .error e => (.error e, s)
      | .ok st =>
        match st.valueIn s.memory s.shared.locale with
        | .error e => (.error e, s)
        | .ok v =>
          let formatted := Display.standard.text s.shared.locale v
          (.ok ⟨v, formatted, Topic.ofStatement s.memory st⟩,
            { s with memory := (st.bindIn s.memory v).record (Text.trimmed text) v formatted }) := by
  simp only [evaluate, onMemory, Action.exec_bind, Action.exec_get, Action.exec_onPart,
    Memory.exec_answering]
  cases Statement.ofInput s.shared.locale text with
  | error e => rfl
  | ok st =>
    dsimp only
    cases st.valueIn s.memory s.shared.locale <;> rfl

theorem map_value_evaluate (s : Session) (text : String) :
    ((evaluate text).exec s).1.map (·.value) =
      match Statement.ofInput s.shared.locale text with
      | .error e => .error e
      | .ok st => st.valueIn s.memory s.shared.locale := by
  rw [exec_evaluate]
  cases Statement.ofInput s.shared.locale text with
  | error e => rfl
  | ok st =>
    dsimp only
    cases st.valueIn s.memory s.shared.locale <;> rfl

theorem exec_evaluateBytes (s : Session) (bytes : List UInt8) :
    (evaluateBytes bytes).exec s =
      if greatestInput < bytes.length then (.error (.inputTooLarge bytes.length), s)
      else
        match Utf8.decode bytes with
        | .error e => (.error (.input (.notUtf8 e)), s)
        | .ok cs => (evaluate (String.ofList cs)).exec s := by
  unfold evaluateBytes
  split
  · rfl
  · cases Utf8.decode bytes <;> rfl

theorem exec_setVariable (s : Session) (name : String) (amount : Float) (unit : Option String) :
    (setVariable name amount unit).exec s =
      if amount.isFinite then
        match s.kindOf unit with
        | .error e => (.error e, s)
        | .ok kind =>
          match checkName name with
          | .error e => (.error (.invalidName e), s)
          | .ok () => (.ok (), { s with memory := s.memory.bind name ⟨amount, kind⟩ })
      else (.error .notFinite, s) := by
  unfold setVariable
  split
  · simp only [onMemory, Action.exec_bind, Action.exec_get, Action.exec_lift, Action.exec_onPart,
      Action.exec_update, Memory.setVariable]
    cases s.kindOf unit with
    | error e => rfl
    | ok kind =>
      dsimp only
      cases checkName name <;> rfl
  · rfl

theorem exec_setRates (s : Session) (payload : String) :
    (setRates payload).exec s =
      match RateSet.ofJson payload with
      | .error e => (.error (.settings (.rates e)), s)
      | .ok rates =>
        (.ok rates.date,
          ⟨{ s.memory with rates := some rates }, s.shared.recordRates rates.date⟩) := by
  simp only [setRates, storeRates, onMemory, onShared, Action.exec_bind, Action.exec_lift,
    Action.exec_onPart, Action.exec_modify]
  cases RateSet.ofJson payload <;> rfl

theorem exec_setLocale (s : Session) (code : String) :
    (setLocale code).exec s =
      match Locale.find? code with
      | none => (.error (.unknownLocale code), s)
      | some l => (.ok (), { s with shared := { s.shared with locale := l } }) := by
  simp only [setLocale, onShared, Action.exec_onPart, Action.exec_update, Shared.setLocale]
  cases Locale.find? code <;> rfl

/-! ### All of them -/

/-- What an operation on `s` can reply and leave behind. -/
inductive Effect (s : Session) : Operation → Outcome Reply → Session → Prop where
  /-- An operation that fails leaves the session as it is. -/
  | refused (op : Operation) (e : Failure) : Effect s op (.error e) s
  | answered (op : Operation) (text : String) (st : Statement) (a : Answer)
      (input : op.input? = some text) (reads : Statement.ofInput s.shared.locale text = .ok st)
      (value : st.valueIn s.memory s.shared.locale = .ok a.value)
      (formatted : a.formatted = Display.standard.text s.shared.locale a.value)
      (topic : a.topic = Topic.ofStatement s.memory st) :
      Effect s op (.ok (.answer a))
        { s with
          memory := (st.bindIn s.memory a.value).record (Text.trimmed text) a.value a.formatted }
  | previewed (text : String) (a : Answer) (preview : s.preview text = .ok a) :
      Effect s (.preview text) (.ok (.answer a)) s
  | bound (name : String) (amount : Float) (unit : Option String) (kind : Kind)
      (finite : amount.isFinite = true) (resolves : s.kindOf unit = .ok kind)
      (valid : checkName name = .ok ()) :
      Effect s (.setVariable name amount unit) (.ok .done)
        { s with memory := s.memory.bind name ⟨amount, kind⟩ }
  | loaded (path : String) (content : Option String) (f : Settings) (p : Prepared)
      (file : Settings.ofFile path content = .ok f) (prepares : f.Prepares s.shared.locale p) :
      Effect s (.loadSettings path content) (.ok .done)
        ⟨{ p.applyMemory s.memory with settingsPath := some path }, p.applyShared s.shared⟩
  | rated (payload : String) (rates : RateSet) (reads : RateSet.ofJson payload = .ok rates) :
      Effect s (.setRates payload) (.ok (.date rates.date))
        ⟨{ s.memory with rates := some rates }, s.shared.recordRates rates.date⟩
  | localized (code : String) (l : Locale) (found : Locale.find? code = some l) :
      Effect s (.setLocale code) (.ok .done) { s with shared := { s.shared with locale := l } }
  | clearedVariables :
      Effect s .clearVariables (.ok .done) { s with memory := s.memory.clearVariables }
  | clearedHistory :
      Effect s .clearHistory (.ok .done) { s with memory := s.memory.clearHistory }

theorem effect_of_evaluate {op : Operation} {text : String} (hop : op.input? = some text)
    (hperform : (perform op).exec s = (.answer <$> evaluate text : Action Session Reply).exec s) :
    Effect s op ((perform op).exec s).1 ((perform op).exec s).2 := by
  rw [hperform, Action.exec_map, exec_evaluate]
  cases hst : Statement.ofInput s.shared.locale text with
  | error e => exact .refused op e
  | ok st =>
    dsimp only
    cases hv : st.valueIn s.memory s.shared.locale with
    | error e => exact .refused op e
    | ok v => exact .answered op text st ⟨v, _, _⟩ hop hst hv rfl rfl

theorem effect_perform (s : Session) (op : Operation) :
    Effect s op ((perform op).exec s).1 ((perform op).exec s).2 := by
  cases op with
  | evaluate text => exact effect_of_evaluate rfl rfl
  | evaluateBytes bytes =>
    have hmap : (perform (.evaluateBytes bytes)).exec s =
        (((evaluateBytes bytes).exec s).1.map .answer, ((evaluateBytes bytes).exec s).2) :=
      Action.exec_map ..
    rw [exec_evaluateBytes] at hmap
    split at hmap
    · rw [hmap]
      exact .refused _ _
    · cases hdecode : Utf8.decode bytes with
      | error e =>
        rw [hmap, hdecode]
        exact .refused _ _
      | ok cs =>
        rw [hdecode] at hmap
        have hinput : Operation.input? (.evaluateBytes bytes) = some (String.ofList cs) := by
          rw [Operation.input?, hdecode]
          rfl
        exact effect_of_evaluate hinput (hmap.trans (Action.exec_map ..).symm)
  | preview text =>
    have hexec : (perform (.preview text)).exec s = ((s.preview text).map .answer, s) := by
      simp only [perform, Action.exec_bind, Action.exec_get, Action.exec_lift]
      cases s.preview text <;> rfl
    rw [hexec]
    cases hpreview : s.preview text with
    | error e => exact .refused _ e
    | ok a => exact .previewed text a hpreview
  | setVariable name amount unit =>
    simp only [perform, Action.exec_bind, exec_setVariable]
    by_cases hfinite : amount.isFinite = true
    · rw [if_pos hfinite]
      cases hkind : s.kindOf unit with
      | error e => exact .refused _ e
      | ok kind =>
        dsimp only
        cases hname : checkName name with
        | error e => exact .refused _ _
        | ok _ => exact .bound name amount unit kind hfinite hkind hname
    · rw [if_neg hfinite]
      exact .refused _ _
  | loadSettings path content =>
    simp only [perform, Action.exec_bind, exec_loadSettings]
    cases hprepare : (Settings.ofFile path content).bind (·.prepare s.shared.locale) with
    | error e => exact .refused _ _
    | ok p =>
      obtain ⟨f, hfile, hp⟩ := bind_eq_ok_iff.1 hprepare
      exact .loaded path content f p hfile (Settings.prepare_eq_ok_iff.1 hp)
  | setRates payload =>
    simp only [perform, Action.exec_map, exec_setRates]
    cases hrates : RateSet.ofJson payload with
    | error e => exact .refused _ _
    | ok rates => exact .rated payload rates hrates
  | setLocale code =>
    simp only [perform, Action.exec_bind, exec_setLocale]
    cases hfind : Locale.find? code with
    | none => exact .refused _ _
    | some l => exact .localized code l hfind
  | clearVariables => exact .clearedVariables
  | clearHistory => exact .clearedHistory

/-- What every effect keeps, a run keeps. -/
theorem Effect.run {P : Session → Prop}
    (hstep : ∀ {s op r s'}, Effect s op r s' → P s → P s') (ops : List Operation) :
    ∀ {s : Session}, P s → P (run s ops) := by
  induction ops with
  | nil => exact id
  | cons op ops ih => exact fun hs => ih (hstep (effect_perform _ op) hs)

/-- Only loading settings changes the table of units. -/
theorem Effect.table {op : Operation} {r : Outcome Reply} (h : Effect s op r s') :
    s'.memory.table = s.memory.table ∨ ∃ path content, op = .loadSettings path content := by
  cases h with
  | answered op text st =>
    refine .inl ?_
    dsimp only [Memory.record, Statement.bindIn]
    cases st.assignment <;> rfl
  | loaded path content => exact .inr ⟨path, content, rfl⟩
  | _ => exact .inl rfl

/-- After settings are loaded the table holds the built-in units and those of the file. -/
theorem table_step_loadSettings {path : String} {content : Option String} {f : Settings}
    (hfile : Settings.ofFile path content = .ok f)
    (hdone : ((perform (.loadSettings path content)).exec s).1 = .ok .done) :
    (s.step (.loadSettings path content)).memory.table = MeasureTable.builtin.enter f.measures := by
  have heffect := effect_perform s (.loadSettings path content)
  rw [hdone] at heffect
  unfold step
  generalize ((perform (.loadSettings path content)).exec s).2 = s' at heffect ⊢
  cases heffect with
  | loaded path content f' p file prepares =>
    cases hfile.symm.trans file
    rw [Prepared.applyMemory_eq]
    exact (Settings.enterCategories_eq_ok prepares.table).2

end Session

end Reckoner

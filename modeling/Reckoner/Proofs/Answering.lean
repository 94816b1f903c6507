import Reckoner.Answer

/-!
# What answering an input does to the memory

Answering writes to the memory in two places: a statement may bind its value to a name, and the
answer is recorded. `exec_run`, `exec_interpreting` and `exec_answering` give outcome and memory of
each stage at once. No stage fails behind its first write, so a failure leaves the memory as it was;
a success changes what `Answered` says and nothing else.
-/

namespace Reckoner

namespace Statement

/-- The value of a statement, provided that the name it assigns can be bound. -/
def valueIn (st : Statement) (m : Memory) (l : Locale) : Outcome Value :=
  match st.assignment with
  | none => st.eval ⟨m, l⟩
  | some name =>
    match checkName name with
    | .error e => .error (.invalidName e)
    | .ok () => st.eval ⟨m, l⟩

/-- The memory with a value bound to the name that a statement assigns. -/
def bindIn (st : Statement) (m : Memory) (v : Value) : Memory :=
  match st.assignment with
  | none => m
  | some name => m.bind name v

/-- A statement that fails binds nothing. The name was checked before, so the write cannot fail. -/
theorem exec_run (st : Statement) (l : Locale) (m : Memory) :
    (st.run l).exec m =
      match st.valueIn m l with
      | .ok v => (.ok v, st.bindIn m v)
      | .error e => (.error e, m) := by
  unfold run valueIn bindIn
  cases st.assignment with
  | none =>
    simp only [Action.exec_bind, Action.exec_pure, Action.exec_get, Action.exec_lift]
    cases st.eval ⟨m, l⟩ <;> rfl
  | some name =>
    simp only [Action.exec_bind, Action.exec_get, Action.exec_lift, Action.exec_update,
      Memory.setVariable]
    cases checkName name with
    | error e => rfl
    | ok u =>
      dsimp only [Except.mapError]
      cases st.eval ⟨m, l⟩ <;> rfl

end Statement

namespace Topic

/-- A statement is taken by the first topic that covers it. -/
theorem exec_interpretFirst_ok (l : Locale) (text : String) (st : Statement) (m : Memory) :
    ∀ ts : List Topic, (interpretFirst l text (.ok st) ts).exec m =
      match ts.find? (covers m st) with
      | some t => ((st.run l).exec m).map (·.map fun v => (v, t)) id
      | none => (.error (.reading (.uninterpretable text)), m)
  | [] => rfl
  | t :: ts => by
    rw [interpretFirst, List.find?_cons]
    simp only [interpret, Action.exec_bind, Action.exec_get]
    cases covers m st t with
    | true =>
      simp only [if_true, Action.exec_bind]
      obtain ⟨_ | v, m'⟩ := (st.run l).exec m <;> rfl
    | false =>
      exact exec_interpretFirst_ok l text st m ts

/-- A text that could not be read is left to the last topic, which fails with the reason. -/
theorem exec_interpretFirst_error (l : Locale) (text : String) (e : ReadingFault) (m : Memory) :
    ∀ {ts : List Topic}, math ∈ ts →
      (interpretFirst l text (.error e) ts).exec m = (.error (.reading e), m)
  | [], h => nomatch h
  | t :: ts, h => by
    rw [interpretFirst]
    by_cases ht : t = math
    · subst ht; rfl
    · have hskip : (interpret l (.error e) t).exec m = (.ok none, m) := by
        cases t <;> first | rfl | exact absurd rfl ht
      rw [Action.exec_bind, hskip]
      exact exec_interpretFirst_error l text e m
        ((List.mem_cons.1 h).resolve_left fun h => ht h.symm)

theorem find?_all (m : Memory) (st : Statement) :
    all.find? (covers m st) = some (ofStatement m st) := by
  unfold ofStatement
  cases h : all.find? (covers m st) with
  | none => exact absurd rfl (List.find?_eq_none.1 h math (by decide))
  | some t => rfl

end Topic

namespace Memory

theorem exec_interpreting (l : Locale) (text : String) (m : Memory) :
    (interpreting l text).exec m =
      match Statement.ofInput l text with
      | .error e => (.error e, m)
      | .ok st =>
        match st.valueIn m l with
        | .error e => (.error e, m)
        | .ok v => (.ok (v, Topic.ofStatement m st), st.bindIn m v) := by
  unfold interpreting Statement.ofInput
  simp only [Action.exec_bind, Action.exec_lift]
  cases Reading.ofInput l text with
  | error e => rfl
  | ok r =>
    cases r with
    | error e => exact Topic.exec_interpretFirst_error l text e m (by decide)
    | ok st =>
      simp only [Topic.exec_interpretFirst_ok, Topic.find?_all, Statement.exec_run]
      show Prod.map _ id _ = match st.valueIn m l with | .error e => _ | .ok v => _
      cases st.valueIn m l <;> rfl

theorem exec_answering (d : Display) (l : Locale) (text : String) (m : Memory) :
    (answering d l text).exec m =
      match Statement.ofInput l text with
      | .error e => (.error e, m)
      | .ok st =>
        match st.valueIn m l with
        | .error e => (.error e, m)
        | .ok v =>
          (.ok ⟨v, d.text l v, Topic.ofStatement m st⟩,
            (st.bindIn m v).record (Text.trimmed text) v (d.text l v)) := by
  simp only [answering, Action.exec_bind, exec_interpreting]
  cases Statement.ofInput l text with
  | error e => rfl
  | ok st => dsimp only; cases st.valueIn m l <;> rfl

/-! ### The history -/

theorem latest_append_drop (limit : Nat) (history : List Entry) :
    history.take (history.length - limit) ++ latest limit history = history :=
  List.take_append_drop _ _

theorem length_latest (limit : Nat) (history : List Entry) :
    (latest limit history).length = min limit history.length := by
  simp only [latest, List.length_drop]; omega

/-! ### The whole effect -/

/-- The change from `m` to `m'` by an input with the statement `st` that got the answer `a`. -/
structure Answered (m : Memory) (text : String) (st : Statement) (a : Answer) (m' : Memory) :
    Prop where
  /-- One entry is added behind the old ones; then the oldest are dropped beyond the limit. -/
  history : ∃ dropped, dropped ++ m'.history =
    m.history ++ [⟨Text.trimmed text, a.value, a.formatted, m.nextSequence⟩]
  length : m'.history.length = min m.limit (m.history.length + 1)
  nextSequence : m'.nextSequence = m.nextSequence + 1
  unbound : st.assignment = none → m'.bindings = m.bindings
  bound : ∀ name, st.assignment = some name → ∀ k, m'.bindings.get? k =
    if k = name then some a.value else m.bindings.get? k
  rates : m'.rates = m.rates
  table : m'.table = m.table
  limit : m'.limit = m.limit
  settingsPath : m'.settingsPath = m.settingsPath

theorem Answered.of_record (m : Memory) (text : String) (st : Statement) (a : Answer) :
    Answered m text st a ((st.bindIn m a.value).record (Text.trimmed text) a.value a.formatted) := by
  have hbind : ∃ b, st.bindIn m a.value = { m with bindings := b } ∧
      (st.assignment = none → b = m.bindings) ∧
      ∀ name, st.assignment = some name → b = m.bindings.insert name a.value := by
    unfold Statement.bindIn
    cases h : st.assignment with
    | none => exact ⟨m.bindings, rfl, fun _ => rfl, fun _ h => nomatch h⟩
    | some name => exact ⟨m.bindings.insert name a.value, rfl, nofun, fun _ h => by cases h; rfl⟩
  obtain ⟨b, hb, hnone, hsome⟩ := hbind
  rw [hb]
  refine ⟨⟨_, latest_append_drop _ _⟩, ?_, rfl, hnone, fun name hn k => ?_, rfl, rfl, rfl, rfl⟩
  · show (latest m.limit _).length = _
    rw [length_latest, List.length_append]; rfl
  · show b.get? k = _
    rw [hsome name hn, Dictionary.get?_insert]
    simp only [eq_comm]

/-- Answering an input either fails and leaves the whole memory as it was, or gives an answer to the
statement that the input writes and makes the change `Answered`. -/
theorem exec_answering_effect (d : Display) (l : Locale) (text : String) (m : Memory) :
    (∃ e, (answering d l text).exec m = (.error e, m)) ∨
      ∃ st a m', Statement.ofInput l text = .ok st ∧ st.valueIn m l = .ok a.value ∧
        a.formatted = d.text l a.value ∧ (answering d l text).exec m = (.ok a, m') ∧
        Answered m text st a m' := by
  rw [exec_answering]
  cases hst : Statement.ofInput l text with
  | error e => exact .inl ⟨e, rfl⟩
  | ok st =>
    dsimp only
    cases hv : st.valueIn m l with
    | error e => exact .inl ⟨e, rfl⟩
    | ok v =>
      let a : Answer := ⟨v, d.text l v, Topic.ofStatement m st⟩
      exact .inr ⟨st, a, _, rfl, hv, rfl, rfl, Answered.of_record m text st a⟩

end Memory

end Reckoner

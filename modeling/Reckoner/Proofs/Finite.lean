import Reckoner.Handle
import Reckoner.Proofs.Answering
import Reckoner.Proofs.Invariant

/-!
# Amounts are finite

A session binds values through evaluation, through `setVariable` and through settings, and records
them through evaluation. Each of these ways checks the amount: every node of an expression gives a
finite value or fails (`Expr.gives_eval`), so that no value in a memory poisons a later one. Every
operation keeps `Memory.Finite` and replies with finite amounts (`Session.keeps_perform`), so that
`run_new_finite` holds after any run. NaN is thus free to stand for a failure behind a handle.
-/

namespace Reckoner

theorem bind_eq_ok_iff {ε α β : Type} {o : Except ε α} {f : α → Except ε β} {y : β} :
    o >>= f = .ok y ↔ ∃ x, o = .ok x ∧ f x = .ok y := by
  cases o with
  | error e => exact ⟨nofun, fun ⟨_, h, _⟩ => nomatch h⟩
  | ok x => exact ⟨fun h => ⟨x, rfl, h⟩, fun ⟨_, h, hf⟩ => by cases h; exact hf⟩

/-- What a computation gives has `Q`, should it succeed. -/
def Gives {ε α : Type} (Q : α → Prop) (o : Except ε α) : Prop := ∀ x, o = .ok x → Q x

namespace Gives
variable {ε α β : Type} {Q : α → Prop} {R : β → Prop}

theorem ok {x : α} (hx : Q x) : Gives Q (.ok x : Except ε α) := fun _ h => by cases h; exact hx

theorem error (e : ε) : Gives Q (.error e : Except ε α) := fun _ h => nomatch h

theorem bind {o : Except ε α} {f : α → Except ε β} (hf : ∀ x, Gives R (f x)) :
    Gives R (o >>= f) := by
  cases o with
  | error e => exact error e
  | ok x => exact hf x

theorem bindOf {o : Except ε α} {f : α → Except ε β} (ho : Gives Q o)
    (hf : ∀ x, Q x → Gives R (f x)) : Gives R (o >>= f) := by
  cases o with
  | error e => exact error e
  | ok x => exact hf x (ho x rfl)

end Gives

/-- The amount of the value is finite. -/
def Value.Finite (v : Value) : Prop := v.amount.isFinite = true

/-! ### Evaluation -/

theorem gives_finite (v : Value) : Gives Value.Finite (finite v) := by
  intro w h
  unfold finite at h
  split at h
  · next hv => cases h; exact hv
  · exact nomatch h

/-- Every node of an expression checks its value, whatever the operands and the memory hold. -/
theorem Expr.gives_eval (s : Scope) (e : Expr) : Gives Value.Finite (e.eval s) := by
  fun_cases Expr.eval s e with
  | case1 x => exact gives_finite _
  | case2 e word => exact .bind fun _ => .bind fun _ => gives_finite _
  | case3 word v h => exact gives_finite v
  | case4 word h => exact .error _
  | case5 r => exact .bind fun _ => gives_finite _
  | case6 e => exact .bind fun _ => gives_finite _
  | case7 op left e =>
    refine .bind fun _ => .bind fun _ => .bind fun x => ?_
    cases adjustment? op x with
    | some factor => exact gives_finite _
    | none => exact .bind fun _ => .bind fun _ => gives_finite _
  | case8 op left right => exact .bind fun _ => .bind fun _ => .bind fun _ => gives_finite _
  | case9 e => exact .bind fun _ => .bind fun _ => gives_finite _
  | case10 e base => exact .bind fun _ => .bind fun _ => .bind fun _ => gives_finite _
  | case11 f e => exact .bind fun _ => .bind fun _ => gives_finite _

theorem Statement.gives_eval (s : Scope) (st : Statement) : Gives Value.Finite (st.eval s) := by
  unfold eval
  have he := st.expression.gives_eval s
  cases h : st.expression.eval s with
  | error e => exact .error e
  | ok v =>
    cases st.conversion with
    | none => exact .ok (he v h)
    | some target =>
      dsimp only
      cases s.units.convertTo v target with
      | error e => exact .error e
      | ok v => exact gives_finite v

theorem Statement.gives_valueIn (st : Statement) (m : Memory) (l : Locale) :
    Gives Value.Finite (st.valueIn m l) := by
  unfold valueIn
  cases st.assignment with
  | none => exact st.gives_eval _
  | some name =>
    dsimp only
    cases checkName name with
    | error e => exact .error _
    | ok u => exact st.gives_eval _

/-! ### The memory -/

/-- All values that a memory holds have `P`. -/
structure Memory.All (P : Value → Prop) (m : Memory) : Prop where
  bindings : ∀ {name v}, m.bindings.get? name = some v → P v
  history : ∀ {e}, e ∈ m.history → P e.result

namespace Memory.All
variable {P Q : Value → Prop} {m : Memory} {v : Value}

theorem imp (h : m.All P) (hPQ : ∀ v, P v → Q v) : m.All Q :=
  ⟨fun hv => hPQ _ (h.bindings hv), fun he => hPQ _ (h.history he)⟩

theorem new : Memory.new.All P := ⟨nofun, nofun⟩

theorem bind (h : m.All P) (name : String) (hv : P v) : (m.bind name v).All P := by
  refine ⟨fun {k w} hk => ?_, h.history⟩
  rw [Memory.bind, Dictionary.get?_insert] at hk
  split at hk
  · cases hk
    exact hv
  · exact h.bindings hk

theorem foldl_bind {vs : List (String × Value)} (h : m.All P) (hvs : ∀ e ∈ vs, P e.2) :
    (vs.foldl (fun m e => m.bind e.1 e.2) m).All P := by
  induction vs generalizing m with
  | nil => exact h
  | cons e vs ih =>
    obtain ⟨he, hvs⟩ := List.forall_mem_cons.1 hvs
    exact ih (h.bind e.1 he) hvs

theorem bindIn (h : m.All P) (st : Statement) (hv : P v) : (st.bindIn m v).All P := by
  unfold Statement.bindIn
  cases st.assignment with
  | none => exact h
  | some name => exact h.bind name hv

theorem record (h : m.All P) (input formatted : String) (hv : P v) :
    (m.record input v formatted).All P := by
  refine ⟨h.bindings, fun {e} he => ?_⟩
  rcases List.mem_append.1 (List.mem_of_mem_drop he) with he | he
  · exact h.history he
  · rw [List.mem_singleton.1 he]
    exact hv

theorem setVariable {m' : Memory} {name : String} (h : m.All P) (hv : P v)
    (hm : m.setVariable name v = .ok m') : m'.All P := by
  unfold Memory.setVariable at hm
  split at hm
  · exact nomatch hm
  · cases hm
    exact h.bind name hv

theorem setLimit (h : m.All P) (limit : Nat) : (m.setLimit limit).All P :=
  ⟨h.bindings, fun he => h.history (List.mem_of_mem_drop he)⟩

theorem applyMemory {p : Prepared} (h : m.All P) (hp : ∀ e ∈ p.bindings, P e.2) :
    (p.applyMemory m).All P := by
  have htable : Memory.All P { m with table := p.table } := ⟨h.bindings, h.history⟩
  have hbound := (htable.setLimit p.limit).foldl_bind hp
  exact ⟨hbound.bindings, hbound.history⟩

theorem clearVariables (h : m.All P) : m.clearVariables.All P :=
  ⟨fun hv => (nomatch (hv : none = some _)), h.history⟩

theorem clearHistory (h : m.All P) : m.clearHistory.All P :=
  ⟨h.bindings, fun he => absurd he List.not_mem_nil⟩

end Memory.All

/-- All amounts that a memory holds are finite. -/
structure Memory.Finite (m : Memory) : Prop where
  bindings : ∀ name v, m.bindings.get? name = some v → v.Finite
  history : ∀ e ∈ m.history, e.result.Finite

namespace Memory
variable {m : Memory}

theorem Finite.all (h : m.Finite) : m.All Value.Finite := ⟨h.bindings _ _, h.history _⟩

theorem All.finite (h : m.All Value.Finite) : m.Finite := ⟨fun _ _ => h.bindings, fun _ => h.history⟩

theorem finite_new : new.Finite := All.new.finite

/-- Answering keeps amounts finite and answers with one. -/
theorem keeps_answering (d : Display) (l : Locale) (text : String) :
    (answering d l text).Keeps Finite fun a => a.value.Finite := by
  intro m hm
  rw [exec_answering]
  cases Statement.ofInput l text with
  | error e => exact ⟨hm, fun _ h => nomatch h⟩
  | ok st =>
    dsimp only
    cases hv : st.valueIn m l with
    | error e => exact ⟨hm, fun _ h => nomatch h⟩
    | ok v =>
      have hfin : v.Finite := st.gives_valueIn m l v hv
      exact ⟨((hm.all.bindIn st hfin).record _ _ hfin).finite, fun _ h => by cases h; exact hfin⟩

end Memory

/-! ### Settings -/

namespace Settings

theorem gives_variableValue (u : Units) (name : String) (s : VariableSetting) :
    Gives Value.Finite (variableValue u name s) := by
  unfold variableValue
  cases checkName name with
  | error e => exact .error _
  | ok _ =>
    dsimp only
    split
    · next hfin =>
      cases variableKind u s with
      | error e => exact .error e
      | ok kind => exact .ok hfin
    · exact .error _

theorem gives_variableValues (u : Units) : ∀ es : List (String × VariableSetting),
    Gives (fun vs => ∀ e ∈ vs, e.2.Finite) (variableValues u es)
  | [] => .ok fun _ h => nomatch h
  | (name, s) :: rest => by
    unfold variableValues
    cases hv : variableValue u name s with
    | error e => exact .error _
    | ok v =>
      have ih := gives_variableValues u rest
      dsimp only
      cases hvs : variableValues u rest with
      | error e => exact .error e
      | ok vs =>
        refine .ok fun e he => ?_
        rcases List.mem_cons.1 he with rfl | he
        · exact gives_variableValue u name s v hv
        · exact ih vs hvs e he

/-- Settings that can be applied bind finite amounts only. -/
theorem gives_prepare (s : Settings) (active : Locale) :
    Gives (fun p => ∀ e ∈ p.bindings, e.2.Finite) (s.prepare active) := by
  unfold prepare
  refine .bind fun locale => .bind fun table => .bind fun rates => ?_
  intro p hp
  have hvs := gives_variableValues ⟨table, rates, locale.getD active⟩ s.bindings.entries
  cases h : variableValues ⟨table, rates, locale.getD active⟩ s.bindings.entries with
  | error e => rw [h] at hp; exact nomatch hp
  | ok vs => rw [h] at hp; cases hp; exact hvs vs h

end Settings

/-! ### Sessions -/

/-- A reply with an answer has a finite amount. -/
def Reply.Finite : Reply → Prop
  | .answer a => a.value.Finite
  | .done | .date _ => True

namespace Session
open Reckoner.Action (Keeps)

/-- All amounts that the session remembers are finite. -/
def Finite (s : Session) : Prop := s.memory.Finite

variable {α : Type} {Q : α → Prop}

theorem keeps_onMemory {a : Action Memory α} (ha : a.Keeps Memory.Finite Q) :
    (onMemory a).Keeps Finite Q :=
  ha.onPart (fun _ h => h) fun _ _ _ h => h

theorem keeps_onShared (a : Action Shared α) : (onShared a).Keeps Finite fun _ => True :=
  fun _ hs => ⟨hs, fun _ _ => trivial⟩

theorem keeps_evaluate (text : String) : (evaluate text).Keeps Finite fun a => a.value.Finite :=
  Keeps.get.bind fun s _ => keeps_onMemory (Memory.keeps_answering .standard s.shared.locale text)

theorem keeps_evaluateBytes (bytes : List UInt8) :
    (evaluateBytes bytes).Keeps Finite fun a => a.value.Finite := by
  unfold evaluateBytes
  split
  · exact .throw _
  · cases Utf8.decode bytes with
    | error e => exact .throw _
    | ok cs => exact keeps_evaluate _

theorem gives_preview (s : Session) (hs : s.Finite) (text : String) :
    Gives (fun a => a.value.Finite) (s.preview text) :=
  (Memory.keeps_answering .standard s.shared.locale text s.memory hs).2

theorem keeps_setVariable (name : String) (amount : Float) (unit : Option String) :
    (setVariable name amount unit).Keeps Finite fun _ => True := by
  unfold setVariable
  split
  · next hfin =>
    refine Keeps.get.bind fun s _ => (Keeps.lift fun _ _ => trivial : Keeps _ (fun _ => True) _).bind
      fun kind _ => keeps_onMemory (.update fun m m' hm h => ?_)
    exact (hm.all.setVariable (v := ⟨amount, kind⟩) hfin h).finite
  · exact .throw _

theorem keeps_loadSettings (path : String) (content : Option String) :
    (loadSettings path content).Keeps Finite fun _ => True := by
  unfold loadSettings
  have hpath := keeps_onMemory
    (.write (f := fun m => { m with settingsPath := some path }) fun m hm => ⟨hm.bindings, hm.history⟩)
  refine Keeps.get.bind fun s _ => (Keeps.lift ?_ :
    Keeps _ (fun p : Prepared => ∀ e ∈ p.bindings, e.2.Finite) _).bind fun p hp =>
      (keeps_onShared _).bind fun _ _ =>
        (keeps_onMemory (.write fun m hm => (hm.all.applyMemory hp).finite)).bind fun _ _ => hpath
  intro p hp
  cases hset : (Settings.ofFile path content).bind (·.prepare s.shared.locale) with
  | error e => rw [hset] at hp; exact nomatch hp
  | ok p' =>
    rw [hset] at hp
    cases hp
    exact Gives.bind (fun st => st.gives_prepare s.shared.locale) p hset

theorem keeps_setRates (payload : String) :
    (setRates payload).Keeps Finite fun _ => True := by
  unfold setRates storeRates
  refine (Keeps.lift fun _ _ => trivial : Keeps _ (fun _ => True) _).bind fun rates _ => ?_
  refine Keeps.bind (Keeps.bind (keeps_onMemory (.write fun m hm => ⟨hm.bindings, hm.history⟩))
    fun _ _ => keeps_onShared _) fun _ _ => .pure trivial

theorem keeps_perform (op : Operation) : (perform op).Keeps Finite Reply.Finite := by
  cases op with
  | evaluate text => exact (keeps_evaluate text).map fun _ h => h
  | evaluateBytes bytes => exact (keeps_evaluateBytes bytes).map fun _ h => h
  | preview text =>
    exact Keeps.get.bind fun s hs => (Keeps.lift (s.gives_preview hs text)).bind fun _ h => .pure h
  | setVariable name amount unit =>
    exact (keeps_setVariable name amount unit).bind fun _ _ => .pure trivial
  | loadSettings path content =>
    exact (keeps_loadSettings path content).bind fun _ _ => .pure trivial
  | setRates payload => exact (keeps_setRates payload).map fun _ _ => trivial
  | setLocale code => exact (keeps_onShared _).bind fun _ _ => .pure trivial
  | clearVariables =>
    exact (keeps_onMemory (.write fun _ hm => hm.all.clearVariables.finite)).bind
      fun _ _ => .pure trivial
  | clearHistory =>
    exact (keeps_onMemory (.write fun _ hm => hm.all.clearHistory.finite)).bind
      fun _ _ => .pure trivial

theorem finite_run_new (ops : List Operation) : (run new ops).Finite :=
  run_keeps (fun op s hs => ⟨(keeps_perform op s hs).1, fun _ _ => trivial⟩) ops Memory.finite_new

end Session

/-! ### Handles -/

theorem Value.Finite.isNaN {v : Value} (h : v.Finite) : v.amount.isNaN = false := by
  change v.amount.toModel.unpack.isFinite = true at h
  show v.amount.toModel.unpack.isNaN = false
  cases hu : v.amount.toModel.unpack with
  | notANumber => rw [hu] at h; exact absurd h Bool.false_ne_true
  | infinity s => rfl
  | zero s => rfl
  | finite s m e hm => rfl

/-- NaN stands for a failure and for nothing else, provided that answers are finite. -/
theorem Output.isNaN_ofOutcome_iff {r : Outcome Answer} (h : Gives (fun a => a.value.Finite) r) :
    (Output.ofOutcome r).amount.isNaN = true ↔ ∃ e, r = .error e := by
  cases r with
  | ok a =>
    have hnum : (Output.ofOutcome (.ok a)).amount.isNaN = false := (h a rfl).isNaN
    rw [hnum]
    exact ⟨nofun, nofun⟩
  | error e =>
    have hnan : Double.notANumber.isNaN = true := by decide
    exact ⟨fun _ => ⟨e, rfl⟩, fun _ => hnan⟩

namespace Handle

/-- The session behind the handle, if there is one, remembers finite amounts only. -/
def Finite (h : Handle) : Prop := ∀ s, h = some s → s.Finite

theorem gives_answer {h : Handle} (hh : h.Finite) (input : PassedText) :
    Gives (fun a => a.value.Finite) (h.answer input).1 := by
  cases h with
  | none => exact .error _
  | some s =>
    have hkeeps : (do Session.evaluateBytes (← input.bytes) : Action Session Answer).Keeps
        Session.Finite fun a => a.value.Finite :=
      (Action.Keeps.lift fun _ _ => trivial : Action.Keeps _ (fun _ => True) _).bind
        fun bytes _ => Session.keeps_evaluateBytes bytes
    exact (hkeeps s (hh s rfl)).2

theorem gives_previewAnswer {h : Handle} (hh : h.Finite) (input : PassedText) :
    Gives (fun a => a.value.Finite) (h.previewAnswer input) := by
  cases h with
  | none => exact .error _
  | some s =>
    show Gives _ (input.bytes.bind (previewBytes s))
    refine .bind fun bytes => ?_
    unfold previewBytes
    cases Utf8.decode bytes with
    | error e => exact .error _
    | ok cs => exact s.gives_preview (hh s rfl) _

end Handle

/-- After any run of operations on a new session, all variables and results are finite, any answer
that the next operation gives is finite, and a handle, be there a session behind it or none, gives
NaN exactly when it fails. -/
theorem run_new_finite (ops : List Operation) :
    let s := Session.run .new ops
    (∀ name v, s.memory.bindings.get? name = some v → v.Finite) ∧
      (∀ e ∈ s.memory.history, e.result.Finite) ∧
      (∀ op a, ((Session.perform op).exec s).1 = .ok (.answer a) → a.value.Finite) ∧
      ∀ h : Handle, h = none ∨ h = some s → ∀ input,
        ((h.evaluate input).1.amount.isNaN = true ↔ ∃ e, (h.answer input).1 = .error e) ∧
        ((h.preview input).amount.isNaN = true ↔ ∃ e, h.previewAnswer input = .error e) := by
  intro s
  have hs : s.Finite := Session.finite_run_new ops
  refine ⟨hs.bindings, hs.history, fun op a ha => (Session.keeps_perform op s hs).2 _ ha, ?_⟩
  intro h hh input
  have hfin : h.Finite := by
    intro s' hs'
    rcases hh with rfl | rfl
    · exact nomatch hs'
    · cases hs'; exact hs
  exact ⟨Output.isNaN_ofOutcome_iff (Handle.gives_answer hfin input),
    Output.isNaN_ofOutcome_iff (Handle.gives_previewAnswer hfin input)⟩

end Reckoner

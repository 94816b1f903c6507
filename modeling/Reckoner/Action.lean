import Reckoner.Failure

/-!
# Actions

What reads and writes a state and may fail on the way. A failure does not take back the writes before
it: `Action.exec` gives the state that is left in either case.
-/

namespace Reckoner

/-- A computation that writes to a state in place and may fail. -/
abbrev Action (σ α : Type) := ExceptT Failure (StateM σ) α

namespace Action
variable {σ τ α β : Type}

/-- The outcome of an action and the state that it leaves. -/
def exec (a : Action σ α) (s : σ) : Outcome α × σ := StateT.run (ExceptT.run a) s

/-- A single write, or a failure. -/
def update (f : σ → Outcome σ) : Action σ Unit := do
  match f (← get) with
  | .ok s => set s
  | .error e => throw e

/-- An action on a part of the state, given how to read the part and how to put it back. -/
def onPart (part : τ → σ) (put : τ → σ → τ) (a : Action σ α) : Action τ α :=
  ExceptT.mk <| StateT.mk fun t =>
    let (r, s) := a.exec (part t)
    (r, put t s)

/-- What an action gives together with the state after it, if it succeeds. -/
def outcome (a : Action σ α) (s : σ) : Outcome (α × σ) :=
  match a.exec s with
  | (.ok x, s) => .ok (x, s)
  | (.error e, _) => .error e

@[simp] theorem exec_pure (x : α) (s : σ) : (pure x : Action σ α).exec s = (.ok x, s) := rfl

@[simp] theorem exec_throw (e : Failure) (s : σ) :
    (throw e : Action σ α).exec s = (.error e, s) := rfl

@[simp] theorem exec_lift (o : Outcome α) (s : σ) : (liftM o : Action σ α).exec s = (o, s) := rfl

@[simp] theorem exec_get (s : σ) : (get : Action σ σ).exec s = (.ok s, s) := rfl

@[simp] theorem exec_set (s s' : σ) : (set s' : Action σ PUnit).exec s = (.ok ⟨⟩, s') := rfl

@[simp] theorem exec_modify (f : σ → σ) (s : σ) :
    (modify f : Action σ PUnit).exec s = (.ok ⟨⟩, f s) := rfl

/-- A failure ends a sequence with the state as it is. -/
theorem exec_bind (a : Action σ α) (f : α → Action σ β) (s : σ) :
    (a >>= f).exec s =
      match a.exec s with
      | (.ok x, s) => (f x).exec s
      | (.error e, s) => (.error e, s) := by
  simp only [exec, ExceptT.run_bind, StateT.run_bind]
  show (match (StateT.run a.run s : Except Failure α × σ) with | (r, s) => _) = _
  generalize (StateT.run a.run s : Except Failure α × σ) = p
  obtain ⟨_ | x, s⟩ := p <;> rfl

theorem exec_map (f : α → β) (a : Action σ α) (s : σ) :
    (f <$> a).exec s = ((a.exec s).1.map f, (a.exec s).2) := by
  show (a >>= fun x => pure (f x)).exec s = _
  rw [exec_bind]
  obtain ⟨_ | x, s⟩ := a.exec s <;> rfl

@[simp] theorem exec_onPart (part : τ → σ) (put : τ → σ → τ) (a : Action σ α) (t : τ) :
    (onPart part put a).exec t = ((a.exec (part t)).1, put t (a.exec (part t)).2) := rfl

@[simp] theorem exec_update (f : σ → Outcome σ) (s : σ) :
    (update f).exec s = match f s with | .ok s' => (.ok (), s') | .error e => (.error e, s) := by
  simp only [update, exec_bind, exec_get]
  cases f s <;> rfl

end Action

end Reckoner

import Reckoner.Session

/-!
# Invariants of actions

`Action.Keeps P Q a`: from a state with `P` the action `a` leaves a state with `P`, also when it
fails, and what it gives has `Q`. A sequence keeps what its parts keep (`Keeps.bind`); a run of
operations keeps what every single operation keeps (`Session.run_keeps`).
-/

namespace Reckoner

namespace Action
variable {σ τ α β : Type} {P : σ → Prop} {Q : α → Prop} {R : β → Prop}

/-- The action keeps `P`, and what it gives has `Q`. -/
def Keeps (P : σ → Prop) (Q : α → Prop) (a : Action σ α) : Prop :=
  ∀ s, P s → P (a.exec s).2 ∧ ∀ x, (a.exec s).1 = .ok x → Q x

namespace Keeps

theorem pure {x : α} (hx : Q x) : Keeps P Q (Pure.pure x : Action σ α) :=
  fun _ hs => ⟨hs, fun _ h => by cases h; exact hx⟩

theorem throw (e : Failure) : Keeps P Q (MonadExcept.throw e : Action σ α) :=
  fun _ hs => ⟨hs, fun _ h => nomatch h⟩

theorem lift {o : Outcome α} (ho : ∀ x, o = .ok x → Q x) : Keeps P Q (liftM o : Action σ α) :=
  fun _ hs => ⟨hs, ho⟩

theorem get : Keeps P P (MonadState.get : Action σ σ) :=
  fun _ hs => ⟨hs, fun _ h => by cases h; exact hs⟩

theorem write {f : σ → σ} (hf : ∀ s, P s → P (f s)) :
    Keeps P (fun _ => True) (modify f : Action σ PUnit) :=
  fun s hs => ⟨hf s hs, fun _ _ => trivial⟩

theorem update {f : σ → Outcome σ} (hf : ∀ s s', P s → f s = .ok s' → P s') :
    Keeps P (fun _ => True) (Action.update f) := by
  intro s hs
  rw [exec_update]
  cases h : f s with
  | error e => exact ⟨hs, fun _ _ => trivial⟩
  | ok s' => exact ⟨hf s s' hs h, fun _ _ => trivial⟩

theorem bind {a : Action σ α} {f : α → Action σ β} (ha : Keeps P Q a)
    (hf : ∀ x, Q x → Keeps P R (f x)) : Keeps P R (a >>= f) := by
  intro s hs
  have h := ha s hs
  rw [exec_bind]
  generalize a.exec s = p at h ⊢
  obtain ⟨_ | x, s'⟩ := p
  · exact ⟨h.1, fun _ h => nomatch h⟩
  · exact hf x (h.2 x rfl) s' h.1

theorem map {a : Action σ α} {f : α → β} (ha : Keeps P Q a) (hf : ∀ x, Q x → R (f x)) :
    Keeps P R (f <$> a) :=
  ha.bind fun x hx => .pure (hf x hx)

theorem onPart {part : τ → σ} {put : τ → σ → τ} {P' : τ → Prop} {a : Action σ α}
    (hpart : ∀ t, P' t → P (part t)) (hput : ∀ t s, P' t → P s → P' (put t s))
    (ha : Keeps P Q a) : Keeps P' Q (Action.onPart part put a) := by
  intro t ht
  obtain ⟨hs, hx⟩ := ha (part t) (hpart t ht)
  exact ⟨hput t _ ht hs, hx⟩

end Keeps

end Action

namespace Session

/-- What every operation keeps, a run of operations keeps. -/
theorem run_keeps {P : Session → Prop} (hstep : ∀ op, (perform op).Keeps P fun _ => True)
    (ops : List Operation) : ∀ {s : Session}, P s → P (run s ops) := by
  induction ops with
  | nil => exact id
  | cons op ops ih => exact fun hs => ih (hstep op _ hs).1

end Session

end Reckoner

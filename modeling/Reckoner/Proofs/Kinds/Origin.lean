import Reckoner.Proofs.Effect
import Reckoner.Proofs.Kinds.Division

/-!
# Where kinds come from

The kind of a result is the kind of a value in the memory, or one that a word names, or that of plain
numbers; nothing else makes a kind. `Scope.Offers P` says that all of these have `P`. Each operation
on values hands on the kinds of its operands, and so every result has `P` too (`Expr.gives_kind`).
-/

namespace Reckoner

/-- The kind of the value has `P`. -/
def Value.Of (P : Kind → Prop) (v : Value) : Prop := P v.kind

theorem eq_of_finite {v w : Value} (h : finite v = .ok w) : w = v := by
  unfold finite at h
  split at h
  · cases h
    rfl
  · exact nomatch h

/-! ### Operations on values -/

section
variable {P : Kind → Prop} {a b : Value} {u : Units}

theorem Gives.finite (ha : a.Of P) : Gives (Value.Of P) (Reckoner.finite a) :=
  fun _ h => eq_of_finite h ▸ ha

theorem Value.gives_multiply (ha : a.Of P) (hb : b.Of P) : Gives (Value.Of P) (a.multiply b) := by
  unfold multiply
  split
  · exact .ok hb
  · exact .ok ha
  · exact .error _

theorem Value.gives_power (hnumber : P .number) : Gives (Value.Of P) (a.power b) := by
  unfold power
  split
  · exact .ok hnumber
  · exact .error _

namespace Units

theorem gives_combine {verb : String} {op : Float → Float → Float} (ha : a.Of P) (hb : b.Of P) :
    Gives (Value.Of P) (u.combine verb op a b) := by
  unfold combine
  split
  · exact .ok hb
  · exact .ok ha
  · split
    · exact .ok ha
    · exact .error _
    · exact .error _

theorem gives_dividing {f g : Float → Value} {c : UnitClash} (hf : ∀ y, (f y).Of P)
    (hg : ∀ y, (g y).Of P) : Gives (Value.Of P) (u.dividing a b f g c) := by
  have hunlessZero : ∀ (x : Float) (v : Value), v.Of P → Gives (Value.Of P) (unlessZero x v) := by
    intro x v hv
    unfold unlessZero
    split
    · exact .error _
    · exact .ok hv
  by_cases hb : b.kind = .number
  · rw [dividing_by_number hb]
    exact hunlessZero _ _ (hf _)
  by_cases ha : a.kind = .number
  · rw [dividing_number ha hb]
    exact .error _
  · rw [dividing_quantities ha hb]
    exact .bind fun y => hunlessZero y _ (hg y)

theorem gives_divide (hnumber : P .number) (ha : a.Of P) : Gives (Value.Of P) (u.divide a b) := by
  rw [divide_eq]
  exact gives_dividing (fun _ => ha) fun _ => hnumber

theorem gives_remainder (ha : a.Of P) : Gives (Value.Of P) (u.remainder a b) := by
  rw [remainder_eq]
  exact gives_dividing (fun _ => ha) fun _ => ha

theorem gives_convertTo (hword : ∀ {word k}, u.resolve? word = some k → P k) (word : String) :
    Gives (Value.Of P) (u.convertTo a word) := by
  unfold convertTo
  split
  · exact .error _
  · next k hk =>
    split
    · exact .ok (hword hk)
    · cases u.amountIn a k with
      | error e => exact .error e
      | ok x => exact .ok (hword hk)

end Units
end

/-! ### Evaluation -/

theorem Scope.gives_sumFrom {P : Kind → Prop} {s : Scope} {a : Value} {es : List Entry} (ha : a.Of P)
    (hes : ∀ e ∈ es, e.result.Of P) : Gives (Value.Of P) (s.sumFrom a es) := by
  induction es generalizing a with
  | nil => exact .ok ha
  | cons e es ih =>
    obtain ⟨he, hes⟩ := List.forall_mem_cons.1 hes
    have hsum : Gives (Value.Of P) (s.units.add a e.result) := Units.gives_combine ha he
    unfold Scope.sumFrom
    cases hadd : s.units.add a e.result with
    | error f => exact .error f
    | ok b => exact ih (hsum b hadd) hes

/-- All kinds that an evaluation can start from have `P`. -/
structure Scope.Offers (P : Kind → Prop) (s : Scope) : Prop where
  number : P .number
  word : ∀ {word k}, s.units.resolve? word = some k → P k
  memory : s.memory.All (Value.Of P)

namespace Scope.Offers
variable {P : Kind → Prop} {s : Scope} {a b : Value}

theorem named? (h : s.Offers P) {word : String} (ha : s.named? word = some a) : a.Of P := by
  unfold Scope.named? at ha
  split at ha
  · next v hv =>
    cases ha
    exact h.memory.bindings hv
  · obtain ⟨x, -, rfl⟩ := Option.map_eq_some_iff.1 ha
    exact h.number

theorem quantity (h : s.Offers P) (ha : a.Of P) (word : String) :
    Gives (Value.Of P) (s.quantity a word) := by
  unfold Scope.quantity
  split
  · next factor hfactor => exact Value.gives_multiply ha (h.memory.bindings hfactor)
  · split
    · exact Units.gives_convertTo h.word word
    · split
      · next factor hfactor => exact Value.gives_multiply ha (h.named? hfactor)
      · exact .error _

theorem historySum (h : s.Offers P) : Gives (fun o => ∀ v ∈ o, v.Of P) s.historySum := by
  unfold Scope.historySum
  split
  · exact .ok nofun
  · next e es hhistory =>
    have hall : ∀ e' ∈ e :: es, e'.result.Of P := fun e' he' =>
      h.memory.history (hhistory ▸ he')
    obtain ⟨he, hes⟩ := List.forall_mem_cons.1 hall
    have hsum : Gives (Value.Of P) (s.sumFrom e.result es) := Scope.gives_sumFrom he hes
    cases hs : s.sumFrom e.result es with
    | error f => exact .error f
    | ok v =>
      refine .ok fun w hw => ?_
      cases hw
      exact hsum v hs

theorem recalled (h : s.Offers P) (r : Recall) : Gives (Value.Of P) (s.recalled r) := by
  unfold Scope.recalled
  cases r with
  | previous =>
    dsimp only
    split
    · next v hv =>
      obtain ⟨e, he, rfl⟩ := Option.map_eq_some_iff.1 hv
      exact .ok (h.memory.history (List.mem_of_getLast? he))
    · exact .error _
  | sum =>
    dsimp only
    split
    · exact .error _
    · exact .error _
    · next v hv => exact .ok (h.historySum _ hv v rfl)
  | average =>
    dsimp only
    split
    · exact .error _
    · exact .error _
    · next v hv => exact Units.gives_divide h.number (h.historySum _ hv v rfl)

theorem binary (h : s.Offers P) (op : BinaryOp) (ha : a.Of P) (hb : b.Of P) :
    Gives (Value.Of P) (s.binary op a b) := by
  cases op with
  | add | subtract => exact Units.gives_combine ha hb
  | multiply => exact Value.gives_multiply ha hb
  | divide => exact Units.gives_divide h.number ha
  | remainder => exact Units.gives_remainder ha
  | power => exact Value.gives_power h.number

theorem call (h : s.Offers P) (f : Function) (ha : a.Of P) : Gives (Value.Of P) (s.call f a) := by
  unfold Scope.call
  split
  · exact .ok ha
  · split
    · exact .error _
    · split
      · exact .ok h.number
      · exact .error _

end Scope.Offers

section
variable {P : Kind → Prop} {s : Scope}

theorem Expr.gives_kind (h : s.Offers P) (e : Expr) : Gives (Value.Of P) (e.eval s) := by
  fun_induction Expr.eval s e with
  | case1 x => exact .finite h.number
  | case2 e word ih => exact ih.bindOf fun v hv => (h.quantity hv word).bindOf fun _ => .finite
  | case3 word v hv => exact .finite (h.named? hv)
  | case4 word hv => exact .error _
  | case5 r => exact (h.recalled r).bindOf fun _ => .finite
  | case6 e ih => exact ih.bindOf fun v hv => .finite hv
  | case7 op left e ihl ihr =>
    refine ihl.bindOf fun a ha => .bind fun _ => .bind fun x => ?_
    cases adjustment? op x with
    | some factor => exact .finite ha
    | none =>
      have hpercent : Gives (Value.Of P) (finite (.number (x / 100))) := .finite h.number
      exact hpercent.bindOf fun b hb => (h.binary op ha hb).bindOf fun _ => .finite
  | case8 op left right hright ihl ihr =>
    exact ihl.bindOf fun a ha => ihr.bindOf fun b hb => (h.binary op ha hb).bindOf fun _ => .finite
  | case9 e ih => exact .bind fun _ => .bind fun _ => .finite h.number
  | case10 e base ih ihb =>
    exact .bind fun _ => .bind fun _ => ihb.bindOf fun b hb => .finite hb
  | case11 f e ih => exact ih.bindOf fun v hv => (h.call f hv).bindOf fun _ => .finite

theorem Statement.gives_kind (h : s.Offers P) (st : Statement) : Gives (Value.Of P) (st.eval s) := by
  unfold eval
  have he := st.expression.gives_kind h
  cases hv : st.expression.eval s with
  | error e => exact .error e
  | ok v =>
    cases st.conversion with
    | none => exact .ok (he v hv)
    | some target =>
      have hconvert := Units.gives_convertTo (a := v) h.word target
      dsimp only
      cases hw : s.units.convertTo v target with
      | error e => exact .error e
      | ok w => exact .finite (hconvert w hw)

theorem Statement.gives_kind_valueIn {m : Memory} {l : Locale} (h : Scope.Offers P ⟨m, l⟩)
    (st : Statement) : Gives (Value.Of P) (st.valueIn m l) := by
  unfold valueIn
  split
  · exact st.gives_kind h
  · split
    · exact .error _
    · exact st.gives_kind h

end

end Reckoner

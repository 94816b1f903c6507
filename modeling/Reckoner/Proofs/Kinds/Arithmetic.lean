import Reckoner.Proofs.Answering
import Reckoner.Proofs.Kinds.Division

/-!
# Kinds in arithmetic

`Outcome.Alike` relates two outcomes that amounts alone do not tell apart: both give results that are
related, or both fail, or one fails for an amount, by a division by zero or with a number that is not
finite. It passes through sequences (`Alike.bind`), and each operation on values gives outcomes alike
for values of the same kinds: no amount has a say in what is converted, combined or refused.
-/

namespace Reckoner

/-! ### Outcomes that amounts do not tell apart -/

/-- Whether a failure is about an amount. -/
def Failure.isNumeric : Failure → Bool
  | divisionByZero | notFinite => true
  | _ => false

/-- The failure with another text if it is a clash of units. -/
def Failure.reworded (c : UnitClash) : Failure → Failure
  | .clash _ => .clash c
  | e => e

/-- Both give results related by `R`, or both fail, or one fails for an amount. -/
def Outcome.Alike {α β : Type} (R : α → β → Prop) : Outcome α → Outcome β → Prop
  | .ok x, .ok y => R x y
  | .error e, .ok _ => e.isNumeric = true
  | .ok _, .error e => e.isNumeric = true
  | .error _, .error _ => True

namespace Outcome.Alike
variable {α β γ δ : Type} {R : α → β → Prop} {S : γ → δ → Prop}

theorem bind {o : Outcome α} {o' : Outcome β} {f : α → Outcome γ} {f' : β → Outcome δ}
    (h : Alike R o o') (hf : ∀ x y, R x y → Alike S (f x) (f' y)) :
    Alike S (o >>= f) (o' >>= f') := by
  match o, o', h with
  | .ok x, .ok y, h => exact hf x y h
  | .error e, .error e', _ => trivial
  | .error e, .ok y, h =>
    show Alike S (.error e) (f' y)
    cases f' y with
    | error e' => trivial
    | ok z => exact h
  | .ok x, .error e, h =>
    show Alike S (f x) (.error e)
    cases f x with
    | error e' => trivial
    | ok z => exact h

theorem map {o : Outcome α} {o' : Outcome β} {f : α → γ} {f' : β → δ} (h : Alike R o o')
    (hf : ∀ x y, R x y → S (f x) (f' y)) : Alike S (o.map f) (o'.map f') := by
  match o, o', h with
  | .ok x, .ok y, h => exact hf x y h
  | .error e, .error e', _ => trivial
  | .error e, .ok y, h => exact h
  | .ok x, .error e, h => exact h

theorem mapError {o : Outcome α} {o' : Outcome β} (h : Alike R o o') {f f' : Failure → Failure}
    (hf : ∀ e, e.isNumeric = true → (f e).isNumeric = true)
    (hf' : ∀ e, e.isNumeric = true → (f' e).isNumeric = true) :
    Alike R (o.mapError f) (o'.mapError f') := by
  match o, o', h with
  | .ok x, .ok y, h => exact h
  | .error e, .error e', _ => trivial
  | .error e, .ok y, h => exact hf e h
  | .ok x, .error e, h => exact hf' e h

theorem refl {R : α → α → Prop} (hR : ∀ x, R x x) (o : Outcome α) : Alike R o o := by
  cases o with
  | error e => trivial
  | ok x => exact hR x

end Outcome.Alike

open Outcome (Alike)

/-- The values are of one kind. -/
def Value.SameKind (v w : Value) : Prop := v.kind = w.kind

theorem Value.sameKind_number (x y : Float) : (Value.number x).SameKind (.number y) := rfl

theorem Value.SameKind.withAmount {v w : Value} (h : v.SameKind w) (x y : Float) :
    (v.withAmount x).SameKind (w.withAmount y) := h

theorem alike_finite {v w : Value} (h : v.SameKind w) :
    Alike Value.SameKind (finite v) (finite w) := by
  unfold finite
  split
  · split
    · exact h
    · exact rfl
  · split
    · exact rfl
    · trivial

/-- A division that finds its divisor zero on one side only fails there for an amount. -/
theorem alike_unlessZero (x y : Float) {v w : Value} (h : v.SameKind w) :
    Alike Value.SameKind (Units.unlessZero x v) (Units.unlessZero y w) := by
  unfold Units.unlessZero
  split
  · split
    · trivial
    · exact rfl
  · split
    · exact rfl
    · exact h

/-! ### Arithmetic -/

namespace Value
variable {v v' w w' : Value}

theorem multiply_alike (hv : v.SameKind v') (hw : w.SameKind w') :
    Alike SameKind (v.multiply w) (v'.multiply w') := by
  obtain ⟨x, k⟩ := v
  obtain ⟨x', k'⟩ := v'
  obtain ⟨y, j⟩ := w
  obtain ⟨y', j'⟩ := w'
  cases (hv : k = k')
  cases (hw : j = j')
  cases k <;> cases j <;> first | exact Value.SameKind.withAmount rfl _ _ | trivial

theorem SameKind.isNumber_eq (h : v.SameKind w) : v.isNumber = w.isNumber := by
  rw [isNumber, isNumber, h]

theorem power_alike (hv : v.SameKind v') (hw : w.SameKind w') :
    Alike SameKind (v.power w) (v'.power w') := by
  unfold power
  rw [hv.isNumber_eq, hw.isNumber_eq]
  split
  · exact sameKind_number _ _
  · trivial

end Value

/-- The same tables, but for the amounts of the rates. -/
structure Units.SameKinds (u u' : Units) : Prop where
  table : u.table = u'.table
  locale : u.locale = u'.locale
  rates : u.rates.map (·.rates.keys) = u'.rates.map (·.rates.keys)

theorem Dictionary.contains_eq_keys {α : Type} (d : Dictionary α) (key : String) :
    d.contains key = d.keys.contains key := by
  have hentries : ∀ es : List (String × α),
      (lookupEntry key es).isSome = (es.map (·.1)).contains key := by
    intro es
    induction es with
    | nil => rfl
    | cons e es ih =>
      obtain ⟨k, v⟩ := e
      by_cases hk : k = key
      · simp [lookupEntry, hk]
      · simp [lookupEntry, hk, ih, Ne.symm hk]
  exact hentries d.entries

namespace RateSet
variable {r r' : RateSet}

theorem isSome_rate?_congr (h : r.rates.keys = r'.rates.keys) (code : String) :
    (r.rate? code).isSome = (r'.rate? code).isSome := by
  show r.rates.contains code = r'.rates.contains code
  rw [Dictionary.contains_eq_keys, Dictionary.contains_eq_keys, h]

/-- Rates of the same codes convert between the same currencies. -/
theorem convert_alike (h : r.rates.keys = r'.rates.keys) (x y : Float) (source target : String) :
    Alike (fun _ _ => True) ((r.convert x source target).mapError .missingRate)
      ((r'.convert y source target).mapError .missingRate) := by
  have hsource := isSome_rate?_congr h source
  have htarget := isSome_rate?_congr h target
  unfold convert
  by_cases heq : source = target
  · simp only [heq, if_true]
    trivial
  · simp only [heq, if_false]
    cases hs : r.rate? source <;> cases hs' : r'.rate? source <;>
      cases ht : r.rate? target <;> cases ht' : r'.rate? target <;>
      first | trivial | simp [hs, hs', ht, ht'] at hsource htarget

end RateSet

namespace Units.SameKinds
variable {u u' : Units} {v v' w w' : Value} (h : u.SameKinds u')
include h

theorem resolve?_eq (word : String) : u.resolve? word = u'.resolve? word := by
  have hany : ∀ code, u.rates.any (·.contains code) = u'.rates.any (·.contains code) := by
    intro code
    have hkeys : ∀ r : Option RateSet, r.any (·.contains code) =
        (r.map (·.rates.keys)).any (·.contains code) := by
      rintro (_ | r)
      · rfl
      · exact r.rates.contains_eq_keys code
    rw [hkeys, hkeys, h.rates]
  have hcurrency : Currency.resolve? word u.rates = Currency.resolve? word u'.rates := by
    simp only [Currency.resolve?, hany]
  rw [resolve?, resolve?, h.table, h.locale, hcurrency]

theorem measure_eq (symbol : String) : u.measure symbol = u'.measure symbol := by
  rw [measure, measure, h.table]

theorem amountIn (hv : v.SameKind v') (target : Kind) :
    Alike (fun _ _ => True) (u.amountIn v target) (u'.amountIn v' target) := by
  obtain ⟨x, k⟩ := v
  obtain ⟨y, k'⟩ := v'
  cases (hv : k = k')
  cases k with
  | number => trivial
  | unit a =>
    cases target with
    | number => trivial
    | currency b => trivial
    | unit b =>
      unfold Units.amountIn
      dsimp only
      rw [h.measure_eq a, h.measure_eq b]
      refine (Alike.refl (fun _ => rfl) _).bind fun m m' (hm : m = m') => ?_
      refine (Alike.refl (fun _ => rfl) _).bind fun t t' (ht : t = t') => ?_
      subst hm ht
      unfold convertMeasure
      split
      · trivial
      · split <;> trivial
  | currency a =>
    cases target with
    | number => trivial
    | unit b => trivial
    | currency b =>
      have hrates := h.rates
      unfold Units.amountIn
      dsimp only
      split
      · trivial
      · match hr : u.rates, hr' : u'.rates with
        | none, none => trivial
        | some r, none => rw [hr, hr'] at hrates; exact nomatch hrates
        | none, some r' => rw [hr, hr'] at hrates; exact nomatch hrates
        | some r, some r' =>
          rw [hr, hr'] at hrates
          exact RateSet.convert_alike (Option.some.inj hrates) x y a b

omit h in
/-- On two quantities, `combine` words the clashes of the conversion anew. -/
theorem combine_quantities {verb : String} {op : Float → Float → Float} (hv : v.kind ≠ .number)
    (hw : w.kind ≠ .number) :
    u.combine verb op v w =
      ((u.amountIn w v.kind).map fun x => v.withAmount (op v.amount x)).mapError
        (Failure.reworded (.combine verb v.label w.label)) := by
  obtain ⟨x, k⟩ := v
  obtain ⟨y, j⟩ := w
  cases k with
  | number => exact absurd rfl hv
  | _ =>
    cases j with
    | number => exact absurd rfl hw
    | _ =>
      unfold Units.combine
      dsimp only
      generalize u.amountIn _ _ = o
      match o with
      | .ok x => rfl
      | .error e => cases e <;> rfl

theorem combine (verb : String) (op : Float → Float → Float) (hv : v.SameKind v')
    (hw : w.SameKind w') :
    Alike Value.SameKind (u.combine verb op v w) (u'.combine verb op v' w') := by
  by_cases hnumber : v.kind = .number ∨ w.kind = .number
  · obtain ⟨x, k⟩ := v
    obtain ⟨x', k'⟩ := v'
    obtain ⟨y, j⟩ := w
    obtain ⟨y', j'⟩ := w'
    cases (hv : k = k')
    cases (hw : j = j')
    rcases hnumber with hk | hj
    · cases (hk : k = .number)
      exact rfl
    · cases (hj : j = .number)
      cases k <;> exact rfl
  · obtain ⟨hk, hj⟩ := not_or.1 hnumber
    have hreworded : ∀ c e, e.isNumeric = true → (Failure.reworded c e).isNumeric = true := by
      intro c e he
      cases e <;> exact he
    rw [combine_quantities hk hj, combine_quantities (hv ▸ hk) (hw ▸ hj), ← hv]
    refine Alike.mapError ?_ (hreworded _) (hreworded _)
    exact (h.amountIn hw v.kind).map fun _ _ _ => hv.withAmount _ _

theorem dividing {f f' g g' : Float → Value} (hv : v.SameKind v') (hw : w.SameKind w')
    (hf : ∀ x y, (f x).SameKind (f' y)) (hg : ∀ x y, (g x).SameKind (g' y)) (c c' : UnitClash) :
    Alike Value.SameKind (u.dividing v w f g c) (u'.dividing v' w' f' g' c') := by
  by_cases hwn : w.kind = .number
  · rw [dividing_by_number hwn, dividing_by_number (hw ▸ hwn)]
    exact alike_unlessZero _ _ (hf _ _)
  by_cases hvn : v.kind = .number
  · rw [dividing_number hvn hwn, dividing_number (hv ▸ hvn) (hw ▸ hwn)]
    trivial
  · rw [dividing_quantities hvn hwn, dividing_quantities (hv ▸ hvn) (hw ▸ hwn), ← hv]
    exact (h.amountIn hw v.kind).bind fun x y _ => alike_unlessZero x y (hg x y)

theorem divide (hv : v.SameKind v') (hw : w.SameKind w') :
    Alike Value.SameKind (u.divide v w) (u'.divide v' w') := by
  rw [divide_eq, divide_eq]
  exact h.dividing hv hw (fun _ _ => hv.withAmount _ _) (fun _ _ => Value.sameKind_number _ _) _ _

theorem remainder (hv : v.SameKind v') (hw : w.SameKind w') :
    Alike Value.SameKind (u.remainder v w) (u'.remainder v' w') := by
  rw [remainder_eq, remainder_eq]
  exact h.dividing hv hw (fun _ _ => hv.withAmount _ _) (fun _ _ => hv.withAmount _ _) _ _

theorem convertTo (hv : v.SameKind v') (word : String) :
    Alike Value.SameKind (u.convertTo v word) (u'.convertTo v' word) := by
  unfold Units.convertTo
  rw [h.resolve?_eq word, hv.isNumber_eq]
  cases u'.resolve? word with
  | none => trivial
  | some kind =>
    dsimp only
    split
    · exact rfl
    · exact (h.amountIn hv kind).map fun _ _ _ => rfl

theorem toRadians (hv : v.SameKind v') :
    Alike Value.SameKind (u.toRadians v) (u'.toRadians v') := by
  have hconvert := h.convertTo hv "rad"
  unfold Units.toRadians
  rw [← hv]
  cases v.kind with
  | number => exact hv
  | currency code => exact hv
  | unit symbol =>
    dsimp only
    rw [h.measure_eq symbol]
    cases u'.measure symbol with
    | error e => trivial
    | ok m =>
      dsimp only
      split
      · exact hconvert.map fun _ _ _ => Value.sameKind_number _ _
      · exact hv

end Units.SameKinds

end Reckoner

import Reckoner.Proofs.Grammar.Exact
import Reckoner.Proofs.Progress

/-!
# Faults point at the token that they name

A fault that names an item was made by a parser that looked at one place of the list, and it has the
text and the position of the item there (`ParseFault.PointsInto`). Combinators only pass faults on:
a choice picks one of them, a name is wrapped around it, and a body that was split off the statement
moves it by as many tokens as stand before the body (`PointsInto.shift`). Lookahead alone makes faults
of its own; in the grammar it looks for one token, so that there is one to be named.
-/

namespace Reckoner

namespace ParseFault
variable {ι : Type} [ToString ι] {items : List ι} {f : ParseFault}

/-- The item that the innermost fault names stands at the position that it gives. -/
def PointsInto (items : List ι) (f : ParseFault) : Prop :=
  ∀ ⦃found position⦄, f.root = .unexpected found position →
    ∃ x, items[position]? = some x ∧ found = toString x

theorem pointsInto_endOfInput : endOfInput.PointsInto items := nofun

theorem pointsInto_noAlternative : noAlternative.PointsInto items := nofun

theorem pointsInto_unexpected {c : Cursor ι} {x : ι} {rest : List ι} (hc : c.On items)
    (hx : c.rest = x :: rest) : (unexpected (toString x) c.position).PointsInto items := by
  intro found position h
  cases h
  have hdrop := hc.rest
  rw [hx] at hdrop
  refine ⟨x, ?_, rfl⟩
  rw [← List.head?_drop, ← hdrop]
  rfl

theorem PointsInto.within (h : f.PointsInto items) (name : String) :
    (within name f).PointsInto items := h

theorem root_shift (offset : Nat) : ∀ f : ParseFault, (f.shift offset).root = f.root.shift offset
  | unexpected _ _ | endOfInput | noAlternative => rfl
  | within _ inner => root_shift offset inner

/-- A fault in a part of a list, moved by what stands before the part. -/
theorem PointsInto.shift {front body : List ι} (h : f.PointsInto body) (hbody : front ++ body <+: items) :
    (f.shift front.length).PointsInto items := by
  intro found position hroot
  rw [root_shift] at hroot
  cases hf : f.root with
  | unexpected text n =>
    rw [hf] at hroot
    cases hroot
    obtain ⟨x, hx, htext⟩ := h hf
    obtain ⟨hlt, hget⟩ := List.getElem?_eq_some_iff.1 hx
    refine ⟨x, ?_, htext⟩
    obtain ⟨behind, rfl⟩ := hbody
    rw [List.append_assoc, List.getElem?_append_right (by omega), Nat.add_sub_cancel,
      List.getElem?_append_left hlt, hx]
  | _ =>
    rw [hf] at hroot
    cases hroot

end ParseFault

namespace Parser
variable {ι α β γ : Type} [ToString ι] {items : List ι} {p : Parser ι α} {q : Parser ι β} {c : Cursor ι}

/-- What a parser started at `c` gives: a place further on in the list, or a fault that points into
it. -/
def FaithfulAt (items : List ι) (c : Cursor ι) : Except ParseFault (α × Cursor ι) → Prop
  | .ok (_, d) => d.On items ∧ c.position ≤ d.position
  | .error e => e.PointsInto items

@[simp] theorem faithfulAt_ok {r : α × Cursor ι} :
    FaithfulAt items c (.ok r) ↔ r.2.On items ∧ c.position ≤ r.2.position := Iff.rfl

@[simp] theorem faithfulAt_error {e : ParseFault} :
    FaithfulAt (α := α) items c (.error e) ↔ e.PointsInto items := Iff.rfl

/-- Wherever the parser starts in the list, it is faithful there. -/
def Faithful (items : List ι) (p : Parser ι α) : Prop := ∀ ⦃c⦄, c.On items → FaithfulAt items c (p c)

namespace Faithful

theorem keeps (h : Faithful items p) : Keeps items p := by
  intro c a d hc hok
  have := h hc
  rwa [hok] at this

theorem satisfy (f : ι → Option α) : Faithful items (satisfy f) := by
  intro c hc
  unfold Parser.satisfy
  cases hrest : c.rest with
  | nil => exact ParseFault.pointsInto_endOfInput
  | cons x rest =>
    cases hx : f x with
    | none => simpa [hx] using ParseFault.pointsInto_unexpected hc hrest
    | some a => simpa [hx] using hc.next hrest

theorem equal [DecidableEq ι] (x : ι) : Faithful items (equal x) := satisfy _

theorem map (hp : Faithful items p) (f : α → β) : Faithful items (map f p) := by
  intro c hc
  have h := hp hc
  unfold Parser.map
  cases hpc : p c <;> simpa [hpc] using h

theorem pair (hp : Faithful items p) (hq : Faithful items q) : Faithful items (pair p q) := by
  intro c hc
  have h := hp hc
  unfold Parser.pair
  cases hpc : p c with
  | error e => simpa [hpc] using h
  | ok r =>
    rw [hpc] at h
    obtain ⟨hd, hle⟩ := h
    have h' := hq hd
    dsimp only
    cases hqd : q r.2 with
    | error e => simpa [hqd] using h'
    | ok s =>
      rw [hqd] at h'
      exact ⟨h'.1, hle.trans h'.2⟩

theorem preceded (hp : Faithful items p) (hq : Faithful items q) : Faithful items (preceded p q) :=
  (hp.pair hq).map _

theorem terminated (hp : Faithful items p) (hq : Faithful items q) : Faithful items (terminated p q) :=
  (hp.pair hq).map _

theorem choiceFrom : ∀ {ps : List (Parser ι α)} {f : Option ParseFault},
    (∀ p ∈ ps, Faithful items p) → (∀ e ∈ f, e.PointsInto items) → Faithful items (choiceFrom f ps)
  | [], f, _, hf, c, hc => by
    cases f with
    | none => exact ParseFault.pointsInto_noAlternative
    | some e => exact hf e rfl
  | p :: ps, f, hps, hf, c, hc => by
    have h := hps p (by simp) hc
    unfold Parser.choiceFrom
    cases hpc : p c with
    | ok r => simpa [hpc] using h
    | error e =>
      rw [hpc] at h
      refine choiceFrom (fun q hq => hps q (by simp [hq])) (fun e' he' => ?_) hc
      cases f with
      | none =>
        cases he'
        exact h
      | some g =>
        cases he'
        dsimp only
        split
        · exact h
        · exact hf g rfl

theorem choice {ps : List (Parser ι α)} (h : ∀ p ∈ ps, Faithful items p) :
    Faithful items (choice ps) := choiceFrom h nofun

theorem many (hp : Faithful items p) : Faithful items (many p) := by
  intro c hc
  obtain ⟨xs, d, hmany, hrun, -⟩ := exists_run_of_many hp.keeps hc
  rw [hmany]
  exact hrun.keeps hp.keeps hc

theorem optional (hp : Faithful items p) : Faithful items (optional p) := by
  intro c hc
  have h := hp hc
  unfold Parser.optional
  cases hpc : p c with
  | error e => exact ⟨hc, Nat.le_refl _⟩
  | ok r => simpa [hpc] using h

theorem peek (hp : Faithful items p) : Faithful items (peek p) := by
  intro c hc
  have h := hp hc
  unfold Parser.peek
  cases hpc : p c with
  | error e => simpa [hpc] using h
  | ok r => exact ⟨hc, Nat.le_refl _⟩

/-- What must not follow is one item, so that its fault has an item to name. -/
theorem absent_satisfy (f : ι → Option α) : Faithful items (absent (Parser.satisfy f)) := by
  intro c hc
  unfold absent
  cases h : Parser.satisfy f c with
  | error e => exact ⟨hc, Nat.le_refl _⟩
  | ok r =>
    obtain ⟨x, rest, hrest, -⟩ := satisfy_ok_iff.1 h
    simpa [hrest] using ParseFault.pointsInto_unexpected hc hrest

theorem within (hp : Faithful items p) (name : String) : Faithful items (within name p) := by
  intro c hc
  have h := hp hc
  unfold Parser.within
  cases hpc : p c with
  | error e =>
    rw [hpc] at h
    exact ParseFault.PointsInto.within h name
  | ok r => simpa [hpc] using h

end Faithful

end Parser

namespace Grammar
open Reckoner.Parser (Faithful FaithfulAt below)
variable {ts : List Token} {p : Parser Token Expr}

theorem faithful_remainderOp : Faithful ts remainderOp :=
  ((Faithful.equal _).terminated (Faithful.satisfy _).peek).map _

theorem faithful_percentSign : Faithful ts percentSign :=
  (Faithful.equal _).terminated (.absent_satisfy _)

theorem faithful_multiplicativeOp : Faithful ts multiplicativeOp := by
  refine .choice fun q hq => ?_
  simp only [List.mem_cons, List.not_mem_nil, or_false] at hq
  rcases hq with rfl | rfl
  · exact .satisfy _
  · exact faithful_remainderOp

theorem faithful_quantity : Faithful ts quantity :=
  (((Faithful.satisfy _).pair (Faithful.satisfy _).optional).pair (Faithful.satisfy _).optional).map _

section
variable (hp : Faithful ts p)
include hp

theorem faithful_multiplicative : Faithful ts (multiplicative p) :=
  (hp.pair (faithful_multiplicativeOp.pair hp).many).map _

theorem faithful_additive : Faithful ts (additive p) :=
  ((faithful_multiplicative hp).pair
    ((Faithful.satisfy _).pair (faithful_multiplicative hp)).many).map _

theorem faithful_whole : Faithful ts (whole p) := (faithful_additive hp).within _

theorem faithful_parenthesized : Faithful ts (parenthesized p) :=
  (Faithful.equal _).preceded ((faithful_whole hp).terminated (Faithful.equal _))

theorem faithful_primary : Faithful ts (primary p) := by
  refine .choice fun q hq => ?_
  simp only [List.mem_cons, List.not_mem_nil, or_false] at hq
  rcases hq with rfl | rfl | rfl | rfl | rfl
  · exact faithful_quantity
  · exact ((Faithful.satisfy _).pair (faithful_parenthesized hp)).map _
  · exact .satisfy _
  · exact ((faithful_parenthesized hp).pair (Faithful.satisfy _).optional).map _
  · exact .satisfy _

theorem faithful_suffixed : Faithful ts (suffixed p) :=
  ((faithful_primary hp).pair
    (faithful_percentSign.pair ((Faithful.equal _).preceded hp).optional).optional).map _

theorem faithful_unary : Faithful ts (unary p) :=
  ((Faithful.satisfy _).many.pair (faithful_suffixed hp)).map _

end

theorem faithful_power : Faithful ts power := by
  intro c hc
  induction hn : c.rest.length using Nat.strongRecOn generalizing c with
  | ind n ih =>
    subst hn
    have hinner : Faithful ts (inner c) := by
      intro d hd
      unfold inner below
      split
      · next hlt => exact ih _ hlt hd rfl
      · exact ParseFault.pointsInto_endOfInput
    rw [power_eq]
    exact (((faithful_unary hinner).pair ((Faithful.equal _).preceded hinner).optional).map _) hc

theorem faithful_expression (ts : List Token) : FaithfulAt ts ⟨0, ts⟩ (expression ts) :=
  faithful_whole faithful_power ⟨Nat.zero_le _, rfl⟩

end Grammar

namespace Grammar
variable {l : Locale} {ts rest body : List Token} {name unit : Option String}

theorem Assigns.exists_front (h : Assigns ts name rest) :
    ∃ front, front ++ rest = ts ∧ front.length = if name.isSome then 2 else 0 := by
  cases h with
  | bound _ => exact ⟨[_, _], rfl, rfl⟩
  | unbound _ => exact ⟨[], rfl, rfl⟩

theorem Converts.isPrefix (h : Converts l rest body unit) : body <+: rest := by
  cases h with
  | bound _ _ _ => exact List.prefix_append ..
  | unbound _ => exact List.prefix_rfl

end Grammar

namespace Statement
open Grammar
variable {l : Locale} {ts : List Token} {e : ParseFault}

theorem pointsInto_of_parse (h : parse l ts = .error e) : e.PointsInto ts := by
  cases hassign : splitAssignment ts with
  | mk name rest =>
    cases hconvert : splitConversion l rest with
    | mk body unit =>
      obtain ⟨front, rfl, hfront⟩ := (splitAssignment_eq_iff.1 hassign).exists_front
      have hbody : front ++ body <+: front ++ rest :=
        (List.prefix_append_right_inj front).2 (splitConversion_eq_iff.1 hconvert).isPrefix
      have hexpression := faithful_expression body
      rw [parse_eq hassign hconvert, ← hfront] at h
      split at h
      · next f hf =>
        cases h
        rw [hf] at hexpression
        exact ParseFault.PointsInto.shift hexpression hbody
      · next x c hx =>
        rw [hx] at hexpression
        split at h
        · cases h
        · next t behind hrest =>
          -- the body goes on behind its expression
          cases h
          exact ParseFault.PointsInto.shift
            (ParseFault.pointsInto_unexpected hexpression.1 hrest) hbody

/-- When a statement cannot be parsed because of a token, the fault gives the position of that token in
the statement and its text. -/
theorem parse_fault_points {found : String} {position : Nat} (h : parse l ts = .error e)
    (hroot : e.root = .unexpected found position) :
    ∃ t, ts[position]? = some t ∧ found = t.text :=
  pointsInto_of_parse h hroot

/-- A parenthesis behind a number, with an assignment and a conversion split off around the two. -/
theorem parse_fault_points_number :
    let ts : List Token := [.identifier "x", .operator .assign, .number 1, .openParen, .keyword .toWord,
      .identifier "km"]
    parse .english ts = .error (.unexpected "(" 3) ∧
      (ParseFault.unexpected "(" 3).root = .unexpected "(" 3 ∧
        ∃ t, ts[3]? = some t ∧ "(" = t.text :=
  have h : parse .english [.identifier "x", .operator .assign, .number 1, .openParen,
      .keyword .toWord, .identifier "km"] = .error (.unexpected "(" 3) := by decide +kernel
  ⟨h, rfl, parse_fault_points h rfl⟩

end Statement

end Reckoner

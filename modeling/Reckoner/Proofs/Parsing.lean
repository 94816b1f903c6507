import Reckoner.Parsing.Parser

/-!
# What combinators accept

For each combinator, when it succeeds and where it leaves the cursor, in terms of its parts. Faults
do not matter here: `Refuses p c` says no more than that `p` fails at `c`. Repetition is described by
`Chain`, the values of a parser applied again and again: `many` gives a chain (`Chain.of_many`), and
it gives every chain that ends where the parser refuses (`Chain.many_eq`).
-/

namespace Reckoner

namespace Parser
variable {ι α β γ : Type} {p : Parser ι α} {q : Parser ι β} {c d e : Cursor ι}

/-- The parser fails at this place. -/
def Refuses (p : Parser ι α) (c : Cursor ι) : Prop := ∀ r, p c ≠ .ok r

theorem Refuses.of_error {e : ParseFault} (h : p c = .error e) : Refuses p c :=
  fun _ hr => nomatch h.symm.trans hr

theorem Refuses.error (h : Refuses p c) : ∃ e, p c = .error e := by
  cases hp : p c with
  | ok r => exact absurd hp (h r)
  | error e => exact ⟨e, rfl⟩

/-! ### One item -/

section
variable [ToString ι] {f : ι → Option α} {x : α}

theorem satisfy_ok_iff :
    satisfy f c = .ok (x, d) ↔
      ∃ t rest, c.rest = t :: rest ∧ f t = some x ∧ d = ⟨c.position + 1, rest⟩ := by
  unfold satisfy
  cases hc : c.rest with
  | nil => exact ⟨nofun, fun ⟨_, _, h, _⟩ => nomatch h⟩
  | cons t rest =>
    cases hf : f t with
    | none =>
      simp only [hf, reduceCtorEq, false_iff]
      rintro ⟨t', rest', h, hf', _⟩
      cases h
      exact nomatch hf.symm.trans hf'
    | some y =>
      simp only [hf]
      constructor
      · intro h; cases h; exact ⟨t, rest, rfl, hf, rfl⟩
      · rintro ⟨t', rest', h, hf', rfl⟩
        cases h
        cases hf.symm.trans hf'
        rfl

theorem satisfy_refuses (h : ∀ t, c.rest.head? = some t → f t = none) : Refuses (satisfy f) c := by
  rintro ⟨x, d⟩ hr
  obtain ⟨t, rest, hc, hf, _⟩ := satisfy_ok_iff.1 hr
  have hn := h t (by rw [hc]; rfl)
  exact nomatch hn.symm.trans hf

theorem equal_ok_iff [DecidableEq ι] {t y : ι} :
    equal t c = .ok (y, d) ↔ ∃ rest, c.rest = t :: rest ∧ y = t ∧ d = ⟨c.position + 1, rest⟩ := by
  rw [equal, satisfy_ok_iff]
  constructor
  · rintro ⟨t', rest, hc, hf, rfl⟩
    split at hf
    · next h => cases hf; exact ⟨rest, h ▸ hc, h, rfl⟩
    · exact nomatch hf
  · rintro ⟨rest, hc, rfl, rfl⟩
    exact ⟨y, rest, hc, if_pos rfl, rfl⟩

end

/-! ### Sequences -/

theorem map_ok_iff {f : α → β} {y : β} :
    map f p c = .ok (y, d) ↔ ∃ x, p c = .ok (x, d) ∧ y = f x := by
  unfold map
  cases h : p c with
  | error e => exact ⟨nofun, fun ⟨_, h, _⟩ => nomatch h⟩
  | ok r =>
    constructor
    · intro h; cases h; exact ⟨r.1, rfl, rfl⟩
    · rintro ⟨x, h, rfl⟩; cases h; rfl

theorem pair_ok_iff {x : α} {y : β} :
    pair p q c = .ok ((x, y), e) ↔ ∃ d, p c = .ok (x, d) ∧ q d = .ok (y, e) := by
  unfold pair
  cases hp : p c with
  | error e => exact ⟨nofun, fun ⟨_, h, _⟩ => nomatch h⟩
  | ok r =>
    dsimp only
    cases hq : q r.2 with
    | error e =>
      refine ⟨nofun, ?_⟩
      rintro ⟨d, h, h'⟩
      cases h
      exact nomatch hq.symm.trans h'
    | ok s =>
      constructor
      · intro h; cases h; exact ⟨r.2, rfl, hq⟩
      · rintro ⟨d, h, h'⟩
        cases h
        cases hq.symm.trans h'
        rfl

theorem pair_refuses (h : ∀ x d, p c = .ok (x, d) → Refuses q d) : Refuses (pair p q) c := by
  rintro ⟨⟨x, y⟩, e⟩ hr
  obtain ⟨d, hp, hq⟩ := pair_ok_iff.1 hr
  exact h x d hp _ hq

theorem Refuses.pair (h : Refuses p c) : Refuses (pair p q) c :=
  pair_refuses fun _ _ hp => absurd hp (h _)

theorem Refuses.map {f : α → β} (h : Refuses p c) : Refuses (map f p) c := by
  rintro ⟨y, d⟩ hr
  obtain ⟨x, hp, _⟩ := map_ok_iff.1 hr
  exact h _ hp

theorem Refuses.preceded (h : Refuses p c) : Refuses (preceded p q) c := h.pair.map

theorem preceded_ok_iff {y : β} :
    preceded p q c = .ok (y, e) ↔ ∃ x d, p c = .ok (x, d) ∧ q d = .ok (y, e) := by
  rw [preceded, map_ok_iff]
  constructor
  · rintro ⟨⟨x, y⟩, h, rfl⟩; exact ⟨x, pair_ok_iff.1 h⟩
  · rintro ⟨x, d, h⟩; exact ⟨(x, y), pair_ok_iff.2 ⟨d, h⟩, rfl⟩

theorem terminated_ok_iff {x : α} :
    terminated p q c = .ok (x, e) ↔ ∃ y d, p c = .ok (x, d) ∧ q d = .ok (y, e) := by
  rw [terminated, map_ok_iff]
  constructor
  · rintro ⟨⟨x, y⟩, h, rfl⟩; exact ⟨y, pair_ok_iff.1 h⟩
  · rintro ⟨y, d, h⟩; exact ⟨(x, y), pair_ok_iff.2 ⟨d, h⟩, rfl⟩

theorem within_ok_iff {name : String} {x : α} :
    within name p c = .ok (x, d) ↔ p c = .ok (x, d) := by
  unfold within
  cases p c with
  | error e => exact ⟨nofun, nofun⟩
  | ok r => exact .rfl

/-! ### Choices and lookahead -/

theorem optional_ok_iff {o : Option α} :
    optional p c = .ok (o, d) ↔
      (∃ x, o = some x ∧ p c = .ok (x, d)) ∨ (o = none ∧ d = c ∧ Refuses p c) := by
  unfold optional
  cases h : p c with
  | error e =>
    constructor
    · intro h'; cases h'; exact .inr ⟨rfl, rfl, .of_error h⟩
    · rintro (⟨x, _, h'⟩ | ⟨rfl, rfl, _⟩)
      · exact nomatch h'
      · rfl
  | ok r =>
    constructor
    · intro h'; cases h'; exact .inl ⟨r.1, rfl, rfl⟩
    · rintro (⟨x, rfl, h'⟩ | ⟨_, _, h'⟩)
      · cases h'; rfl
      · exact absurd h (h' r)

theorem peek_ok_iff {u : Unit} : peek p c = .ok (u, d) ↔ d = c ∧ ∃ r, p c = .ok r := by
  unfold peek
  cases h : p c with
  | error e => exact ⟨nofun, fun ⟨_, _, h⟩ => nomatch h⟩
  | ok r =>
    constructor
    · intro h'; cases h'; exact ⟨rfl, r, rfl⟩
    · rintro ⟨rfl, _⟩; rfl

theorem absent_ok_iff [ToString ι] {u : Unit} : absent p c = .ok (u, d) ↔ d = c ∧ Refuses p c := by
  unfold absent
  cases h : p c with
  | error e =>
    constructor
    · intro h'; cases h'; exact ⟨rfl, .of_error h⟩
    · rintro ⟨rfl, _⟩; rfl
  | ok r => exact ⟨fun h' => (nomatch h'), fun ⟨_, h'⟩ => absurd h (h' r)⟩

theorem choiceFrom_ok_congr {r : α × Cursor ι} : ∀ (ps : List (Parser ι α)) (f g : Option ParseFault),
    choiceFrom f ps c = .ok r → choiceFrom g ps c = .ok r
  | [], _, _, h => nomatch h
  | p :: ps, f, g, h => by
    unfold choiceFrom at h ⊢
    cases hp : p c with
    | ok s => rw [hp] at h; exact h
    | error e => rw [hp] at h; exact choiceFrom_ok_congr ps _ _ h

theorem choice_cons_ok_iff {ps : List (Parser ι α)} {r : α × Cursor ι} :
    choice (p :: ps) c = .ok r ↔ p c = .ok r ∨ (Refuses p c ∧ choice ps c = .ok r) := by
  rw [choice, choiceFrom]
  cases h : p c with
  | ok s => exact ⟨.inl, fun h' => h'.resolve_right fun h' => h'.1 s h⟩
  | error e =>
    constructor
    · exact fun h' => .inr ⟨.of_error h, choiceFrom_ok_congr ps _ _ h'⟩
    · rintro (h' | ⟨_, h'⟩)
      · exact nomatch h'
      · exact choiceFrom_ok_congr ps _ _ h'

theorem choice_nil_refuses : Refuses (choice ([] : List (Parser ι α))) c := nofun

/-! ### Repetition -/

/-- The values of `p`, applied again and again from one cursor to the other. Each time it moves
on. -/
inductive Chain (p : Parser ι α) : Cursor ι → List α → Cursor ι → Prop where
  | nil (c : Cursor ι) : Chain p c [] c
  | cons {c d e : Cursor ι} {x : α} {xs : List α} : p c = .ok (x, d) →
      d.rest.length < c.rest.length → d.position ≠ c.position → Chain p d xs e →
      Chain p c (x :: xs) e

variable {xs : List α}

/-- A parser that reads something when it succeeds. -/
def Advances (p : Parser ι α) : Prop :=
  ∀ c x d, p c = .ok (x, d) → d.rest.length < c.rest.length

theorem Chain.of_manyFrom (hp : Advances p) : ∀ (fuel : Nat) (done : List α) (c : Cursor ι),
    ∃ xs, (manyFrom p fuel done c).1 = done.reverse ++ xs ∧ Chain p c xs (manyFrom p fuel done c).2
  | 0, done, c => ⟨[], by simp [manyFrom], .nil c⟩
  | fuel + 1, done, c => by
    unfold manyFrom
    cases h : p c with
    | error e => exact ⟨[], by simp, .nil c⟩
    | ok r =>
      dsimp only
      split
      · exact ⟨[], by simp, .nil c⟩
      · next hne =>
        obtain ⟨xs, hxs, hchain⟩ := of_manyFrom hp fuel (r.1 :: done) r.2
        exact ⟨r.1 :: xs, by simp [hxs], .cons h (hp c r.1 r.2 h) hne hchain⟩

theorem Chain.of_many (hp : Advances p) (h : many p c = .ok (xs, d)) : Chain p c xs d := by
  unfold many at h
  cases hr : p c with
  | error e => rw [hr] at h; cases h; exact .nil c
  | ok r =>
    rw [hr] at h
    dsimp only at h
    split at h
    · cases h; exact .nil c
    · next hne =>
      obtain ⟨ys, hys, hchain⟩ := of_manyFrom hp r.2.rest.length [r.1] r.2
      rw [List.reverse_singleton, List.singleton_append] at hys
      obtain ⟨hxs, hd⟩ := Prod.mk.inj (Except.ok.inj h)
      rw [← hxs, hys, ← hd]
      exact .cons hr (hp c r.1 r.2 hr) hne hchain

/-- The items that are left pay for the repetitions. -/
theorem Chain.manyFrom_eq (h : Chain p c xs d) (hd : Refuses p d) :
    ∀ {fuel : Nat} (done : List α), c.rest.length ≤ fuel →
      manyFrom p fuel done c = (done.reverse ++ xs, d) := by
  induction h with
  | nil c =>
    intro fuel done _
    obtain ⟨e, he⟩ := hd.error
    cases fuel <;> simp [manyFrom, he]
  | @cons c d e x xs hx hlt hne _ ih =>
    intro fuel done hfuel
    cases fuel with
    | zero => omega
    | succ fuel =>
      rw [manyFrom, hx]
      simp only [hne, if_false]
      rw [ih hd (x :: done) (by omega), List.reverse_cons, List.append_assoc, List.singleton_append]

theorem Chain.many_eq (h : Chain p c xs d) (hd : Refuses p d) : many p c = .ok (xs, d) := by
  unfold many
  cases h with
  | nil => obtain ⟨e, he⟩ := hd.error; rw [he]
  | cons hx hlt hne htail =>
    rw [hx]
    simp only [hne, if_false]
    rw [htail.manyFrom_eq hd _ (Nat.le_refl _)]
    rfl

end Parser

end Reckoner

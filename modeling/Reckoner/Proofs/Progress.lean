import Mathlib.Order.WithBot
import Reckoner.Parsing.Blueprint
import Reckoner.Proofs.Parsing

/-!
# How combinators move and choose

`Keeps items p`: wherever `p` is started in a list, it stops in the same list and no further left. All
combinators keep this (`Built.keeps`), lookahead and parsers that read nothing included, and it is what
ends the loop of `many`: a run of successes that each move on is no longer than what is left of the
list (`Run.add_length_le`), so that `many` stops where no further success moves on, and not earlier
(`exists_run_of_many`). A choice is described by `Chooses`, for any parsers.
-/

namespace Reckoner

/-- The cursor stands at its position in the list. -/
structure Cursor.On {ι : Type} (items : List ι) (c : Cursor ι) : Prop where
  le : c.position ≤ items.length
  rest : c.rest = items.drop c.position

namespace Cursor.On
variable {ι : Type} {items : List ι} {c d : Cursor ι}

theorem of_le {start : Nat} (h : start ≤ items.length) : (Cursor.at items start).On items := ⟨h, rfl⟩

theorem eq_at (h : c.On items) : c = Cursor.at items c.position := by
  rw [Cursor.at, ← h.rest]

theorem length (h : c.On items) : c.position + c.rest.length = items.length := by
  simp [h.rest, h.le]

theorem next {x : ι} {rest : List ι} (h : c.On items) (hx : c.rest = x :: rest) :
    Cursor.On items ⟨c.position + 1, rest⟩ := by
  have hlen := h.length
  have hdrop := h.rest
  rw [hx] at hlen hdrop
  refine ⟨by simp at hlen ⊢; omega, ?_⟩
  rw [← List.drop_drop, ← hdrop, List.drop_one, List.tail_cons]

end Cursor.On

namespace Parser
variable {ι α β γ : Type} {items : List ι} {p : Parser ι α} {q : Parser ι β} {c d e : Cursor ι}

/-! ### Staying in the list -/

/-- Started in the list, the parser stops there too, and not before the place where it started. -/
def Keeps (items : List ι) (p : Parser ι α) : Prop :=
  ∀ ⦃c a d⦄, c.On items → p c = .ok (a, d) → d.On items ∧ c.position ≤ d.position

theorem Keeps.satisfy [ToString ι] (f : ι → Option α) : Keeps items (satisfy f) := by
  intro c a d hc h
  obtain ⟨x, rest, hx, -, rfl⟩ := satisfy_ok_iff.1 h
  exact ⟨hc.next hx, Nat.le_succ _⟩

theorem Keeps.map (hp : Keeps items p) (f : α → β) : Keeps items (map f p) := by
  intro c a d hc h
  obtain ⟨x, hx, -⟩ := map_ok_iff.1 h
  exact hp hc hx

theorem Keeps.pair (hp : Keeps items p) (hq : Keeps items q) : Keeps items (pair p q) := by
  rintro c ⟨x, y⟩ e hc h
  obtain ⟨d, hx, hy⟩ := pair_ok_iff.1 h
  obtain ⟨hd, hle⟩ := hp hc hx
  obtain ⟨he, hle'⟩ := hq hd hy
  exact ⟨he, Nat.le_trans hle hle'⟩

theorem Keeps.choice {ps : List (Parser ι α)} (h : ∀ p ∈ ps, Keeps items p) :
    Keeps items (choice ps) := by
  intro c a d hc hok
  induction ps with
  | nil => exact absurd hok (choice_nil_refuses _)
  | cons p ps ih =>
    rcases choice_cons_ok_iff.1 hok with hp | ⟨-, hps⟩
    · exact h p (by simp) hc hp
    · exact ih (fun q hq => h q (by simp [hq])) hps

theorem Keeps.optional (hp : Keeps items p) : Keeps items (optional p) := by
  intro c o d hc h
  rcases optional_ok_iff.1 h with ⟨x, -, hx⟩ | ⟨-, rfl, -⟩
  · exact hp hc hx
  · exact ⟨hc, Nat.le_refl _⟩

theorem Keeps.peek : Keeps items (peek p) := by
  intro c u d hc h
  obtain ⟨rfl, -⟩ := peek_ok_iff.1 h
  exact ⟨hc, Nat.le_refl _⟩

theorem Keeps.absent [ToString ι] : Keeps items (absent p) := by
  intro c u d hc h
  obtain ⟨rfl, -⟩ := absent_ok_iff.1 h
  exact ⟨hc, Nat.le_refl _⟩

theorem Keeps.within (hp : Keeps items p) (name : String) : Keeps items (within name p) :=
  fun _ _ _ hc h => hp hc (within_ok_iff.1 h)

/-! ### Repetition -/

/-- Successes of `p` one behind the other, each of which moves on. -/
inductive Run (p : Parser ι α) : Cursor ι → List α → Cursor ι → Prop where
  | nil (c : Cursor ι) : Run p c [] c
  | cons {c d e : Cursor ι} {x : α} {xs : List α} : p c = .ok (x, d) → d.position ≠ c.position →
      Run p d xs e → Run p c (x :: xs) e

/-- No success of `p` at this place moves on. -/
def Halts (p : Parser ι α) (c : Cursor ι) : Prop := ∀ x d, p c = .ok (x, d) → d.position = c.position

theorem Halts.of_error {e : ParseFault} (h : p c = .error e) : Halts p c := by
  intro x d hx
  cases h.symm.trans hx

theorem Halts.of_ok {x : α} (h : p c = .ok (x, d)) (hd : d.position = c.position) : Halts p c := by
  intro y e hy
  cases h.symm.trans hy
  exact hd

theorem Halts.of_rest_nil (hp : Keeps items p) (hc : c.On items) (h : c.rest = []) : Halts p c := by
  intro x d hx
  obtain ⟨hd, hle⟩ := hp hc hx
  have hend := hc.length
  rw [h, List.length_nil] at hend
  exact Nat.le_antisymm (hd.le.trans_eq hend.symm) hle

namespace Run
variable {xs ys : List α}

theorem keeps (hp : Keeps items p) (h : Run p c xs d) (hc : c.On items) :
    d.On items ∧ c.position ≤ d.position := by
  induction h with
  | nil c => exact ⟨hc, Nat.le_refl _⟩
  | cons hx _ _ ih =>
    obtain ⟨hd, hle⟩ := hp hc hx
    obtain ⟨he, hle'⟩ := ih hd
    exact ⟨he, Nat.le_trans hle hle'⟩

/-- Every success of a run takes at least one item. -/
theorem add_length_le (hp : Keeps items p) (h : Run p c xs d) (hc : c.On items) :
    c.position + xs.length ≤ d.position := by
  induction h with
  | nil c => simp
  | cons hx hne _ ih =>
    obtain ⟨hd, hle⟩ := hp hc hx
    have := ih hd
    simp
    omega

/-- What stops where nothing moves on is the longest run. -/
theorem isPrefix (h : Run p c xs d) (hd : Halts p d) (h' : Run p c ys e) : ys <+: xs := by
  induction h' generalizing xs with
  | nil c => exact List.nil_prefix
  | @cons c b e y ys hy hne _ ih =>
    cases h with
    | nil => exact absurd (hd y b hy) hne
    | cons hx _ hxs =>
      cases hx.symm.trans hy
      exact (List.prefix_cons_inj y).2 (ih hxs)

/-- The fuel is not what stops the loop: there is one unit of it for each item that is left. -/
theorem of_manyFrom (hp : Keeps items p) {fuel : Nat} (done : List α) {c : Cursor ι}
    (hc : c.On items) (hfuel : c.rest.length ≤ fuel) :
      ∃ xs d, manyFrom p fuel done c = (done.reverse ++ xs, d) ∧ Run p c xs d ∧ Halts p d := by
  induction fuel generalizing done c with
  | zero =>
    have hrest := List.eq_nil_of_length_eq_zero (Nat.le_zero.1 hfuel)
    exact ⟨[], c, by simp [manyFrom], .nil c, .of_rest_nil hp hc hrest⟩
  | succ fuel ih =>
    unfold manyFrom
    cases hx : p c with
    | error e => exact ⟨[], c, by simp, .nil c, .of_error hx⟩
    | ok r =>
      obtain ⟨x, b⟩ := r
      obtain ⟨hb, hle⟩ := hp hc hx
      by_cases hne : b.position = c.position
      · exact ⟨[], c, by simp [hne], .nil c, .of_ok hx hne⟩
      · have hfuel' : b.rest.length ≤ fuel := by
          have := hb.length
          have := hc.length
          omega
        obtain ⟨xs, d, hmany, hrun, hhalts⟩ := ih (x :: done) hb hfuel'
        exact ⟨x :: xs, d, by simp [hne, hmany], .cons hx hne hrun, hhalts⟩

end Run

theorem exists_run_of_many (hp : Keeps items p) (hc : c.On items) :
    ∃ xs d, many p c = .ok (xs, d) ∧ Run p c xs d ∧ Halts p d := by
  unfold many
  cases hx : p c with
  | error e => exact ⟨[], c, rfl, .nil c, .of_error hx⟩
  | ok r =>
    obtain ⟨x, b⟩ := r
    by_cases hne : b.position = c.position
    · exact ⟨[], c, by simp [hne], .nil c, .of_ok hx hne⟩
    · obtain ⟨xs, d, hmany, hrun, hhalts⟩ := Run.of_manyFrom hp [x] (hp hc hx).1 (Nat.le_refl _)
      exact ⟨x :: xs, d, by simp [hne, hmany], .cons hx hne hrun, hhalts⟩

theorem Keeps.many (hp : Keeps items p) : Keeps items (many p) := by
  intro c xs d hc h
  obtain ⟨ys, e, hmany, hrun, -⟩ := exists_run_of_many hp hc
  cases hmany.symm.trans h
  exact hrun.keeps hp hc

/-! ### Choice -/

end Parser

/-- How far a fault got: to its item, or to the end of the input, which is further than any item. A
choice without alternatives got nowhere. -/
def ParseFault.reach (f : ParseFault) : WithTop Nat :=
  match f.root with
  | unexpected _ position => WithTop.some position
  | endOfInput => ⊤
  | _ => WithTop.some 0

theorem ParseFault.asFarAs_iff {f g : ParseFault} : f.asFarAs g = true ↔ g.reach ≤ f.reach := by
  unfold asFarAs reach
  cases f.root <;> cases g.root <;> simp

namespace Parser
variable {ι α : Type} {p : Parser ι α} {c : Cursor ι}

/-- What a choice between parsers gives: the first success, else the fault that got furthest, and of
several such ones the last. -/
inductive Chooses (c : Cursor ι) : List (Parser ι α) → Except ParseFault (α × Cursor ι) → Prop where
  | first {before after p r} : (∀ q ∈ before, Refuses q c) → p c = .ok r →
      Chooses c (before ++ p :: after) (.ok r)
  | furthest {before after p e} : (∀ q ∈ before, ∃ f, q c = .error f ∧ f.reach ≤ e.reach) →
      p c = .error e → (∀ q ∈ after, ∃ f, q c = .error f ∧ f.reach < e.reach) →
      Chooses c (before ++ p :: after) (.error e)
  | nothing : Chooses c [] (.error .noAlternative)

/-- The alternatives before `ps` have failed, and `e` is the fault among theirs that got furthest. -/
theorem chooses_choiceFrom : ∀ {ps : List (Parser ι α)} (before after : List (Parser ι α))
    {p : Parser ι α} {e : ParseFault}, (∀ q ∈ before, ∃ f, q c = .error f ∧ f.reach ≤ e.reach) → p c = .error e →
      (∀ q ∈ after, ∃ f, q c = .error f ∧ f.reach < e.reach) →
        Chooses c (before ++ p :: (after ++ ps)) (choiceFrom (some e) ps c)
  | [], _, _, _, _, hbefore, hp, hafter => by
    rw [List.append_nil]
    exact .furthest hbefore hp hafter
  | q :: ps, before, after, p, e, hbefore, hp, hafter => by
    have hassoc : before ++ p :: (after ++ q :: ps) = (before ++ p :: after) ++ q :: ps := by simp
    rw [choiceFrom]
    cases hq : q c with
    | ok r =>
      rw [hassoc]
      refine .first (fun q' hq' => ?_) hq
      rcases List.mem_append.1 hq' with hq' | hq'
      · obtain ⟨f, hf, -⟩ := hbefore q' hq'
        exact .of_error hf
      · rcases List.mem_cons.1 hq' with rfl | hq'
        · exact .of_error hp
        · obtain ⟨f, hf, -⟩ := hafter q' hq'
          exact .of_error hf
    | error e' =>
      dsimp only
      split
      · next hfar =>
        -- the fault of `q` takes the place of `e`, and nothing stands behind it yet
        have hle : e.reach ≤ e'.reach := ParseFault.asFarAs_iff.1 hfar
        rw [hassoc]
        refine chooses_choiceFrom (before ++ p :: after) [] (fun q' hq' => ?_) hq (by simp)
        rcases List.mem_append.1 hq' with hq' | hq'
        · obtain ⟨f, hf, hreach⟩ := hbefore q' hq'
          exact ⟨f, hf, hreach.trans hle⟩
        · rcases List.mem_cons.1 hq' with rfl | hq'
          · exact ⟨e, hp, hle⟩
          · obtain ⟨f, hf, hreach⟩ := hafter q' hq'
            exact ⟨f, hf, hreach.le.trans hle⟩
      · next hfar =>
        have hlt : e'.reach < e.reach := by
          rw [ParseFault.asFarAs_iff, not_le] at hfar
          exact hfar
        rw [show after ++ q :: ps = (after ++ [q]) ++ ps by simp]
        refine chooses_choiceFrom before (after ++ [q]) hbefore hp fun q' hq' => ?_
        rcases List.mem_append.1 hq' with hq' | hq'
        · exact hafter q' hq'
        · rw [List.mem_singleton.1 hq']
          exact ⟨e', hq, hlt⟩

theorem chooses_choice (ps : List (Parser ι α)) : Chooses c ps (choice ps c) := by
  cases ps with
  | nil => exact .nothing
  | cons p ps =>
    rw [choice, choiceFrom]
    cases hp : p c with
    | ok r =>
      have hfirst : Chooses c ([] ++ p :: ps) (.ok r) := .first (by simp) hp
      exact hfirst
    | error e => exact chooses_choiceFrom [] [] (by simp) hp (by simp)

/-! ### Nestings of combinators -/

/-- The parsers built by nesting combinators, over any items and with any functions in them. The other
combinators are made of these, and a parser that is built only when it is used is the one it builds. -/
inductive Built {ι : Type} [ToString ι] : {α : Type} → Parser ι α → Prop where
  | satisfy {α : Type} (f : ι → Option α) : Built (satisfy f)
  | choice {α : Type} {ps : List (Parser ι α)} : (∀ p ∈ ps, Built p) → Built (choice ps)
  | pair {α β : Type} {p : Parser ι α} {q : Parser ι β} : Built p → Built q → Built (pair p q)
  | map {α β : Type} {p : Parser ι α} (f : α → β) : Built p → Built (map f p)
  | many {α : Type} {p : Parser ι α} : Built p → Built (many p)
  | optional {α : Type} {p : Parser ι α} : Built p → Built (optional p)
  | peek {α : Type} {p : Parser ι α} : Built p → Built (peek p)
  | absent {α : Type} {p : Parser ι α} : Built p → Built (absent p)
  | within {α : Type} {p : Parser ι α} (name : String) : Built p → Built (within name p)

/-- What is to be expected of a parser started at a place of a list, and of the combinators around
it. -/
structure Disciplined [ToString ι] (p : Parser ι α) (items : List ι) (start : Nat) : Prop where
  /-- It moves within the list, and not back. -/
  moves : ∀ {a d}, p (Cursor.at items start) = .ok (a, d) →
    d = Cursor.at items d.position ∧ start ≤ d.position ∧ d.position ≤ items.length
  peeks : ∀ {u d}, peek p (Cursor.at items start) = .ok (u, d) → d = Cursor.at items start
  avoids : ∀ {u d}, absent p (Cursor.at items start) = .ok (u, d) → d = Cursor.at items start
  tries : ∃ r, optional p (Cursor.at items start) = .ok r
  /-- A run takes an item for each success in it, so that there is a longest one. -/
  bounded : ∀ {xs d}, Run p (Cursor.at items start) xs d → start + xs.length ≤ items.length
  /-- `many` gives the longest run. -/
  repeats : ∃ xs d, many p (Cursor.at items start) = .ok (xs, d) ∧
    Run p (Cursor.at items start) xs d ∧ Halts p d ∧
      ∀ {ys e}, Run p (Cursor.at items start) ys e → ys <+: xs

section
variable [ToString ι] {β γ : Type} {q : Parser ι β} {r : Parser ι γ} {items : List ι} {start : Nat}

namespace Built

theorem equal [DecidableEq ι] (x : ι) : Built (equal x) := .satisfy _

theorem preceded (hp : Built p) (hq : Built q) : Built (preceded p q) := .map _ (.pair hp hq)

theorem terminated (hp : Built p) (hq : Built q) : Built (terminated p q) := .map _ (.pair hp hq)

theorem delimited (hp : Built p) (hq : Built q) (hr : Built r) : Built (delimited p q r) :=
  hp.preceded (hq.terminated hr)

theorem keeps (h : Built p) : Keeps items p := by
  induction h with
  | satisfy f => exact .satisfy f
  | choice _ ih => exact .choice ih
  | pair _ _ ihp ihq => exact .pair ihp ihq
  | map f _ ih => exact .map ih f
  | many _ ih => exact .many ih
  | optional _ ih => exact .optional ih
  | peek => exact .peek
  | absent => exact .absent
  | within name _ ih => exact .within ih name

end Built

theorem Keeps.disciplined (hp : Keeps items p) (hstart : start ≤ items.length) :
    Disciplined p items start := by
  have hc := Cursor.On.of_le hstart
  constructor
  case moves =>
    intro a d h
    obtain ⟨hd, hle⟩ := hp hc h
    exact ⟨hd.eq_at, hle, hd.le⟩
  case peeks =>
    intro u d h
    exact (peek_ok_iff.1 h).1
  case avoids =>
    intro u d h
    exact (absent_ok_iff.1 h).1
  case tries =>
    unfold Parser.optional
    cases p (Cursor.at items start) <;> exact ⟨_, rfl⟩
  case bounded =>
    intro xs d h
    exact (h.add_length_le hp hc).trans (h.keeps hp hc).1.le
  case repeats =>
    obtain ⟨xs, d, hmany, hrun, hhalts⟩ := exists_run_of_many hp hc
    exact ⟨xs, d, hmany, hrun, hhalts, fun h => hrun.isPrefix hhalts h⟩

end

end Parser

namespace Blueprint
open Reckoner.Parser (Built)

mutual

theorem built : ∀ p : Blueprint, Built p.parser
  | .equal c => .map _ (.equal c)
  | .digit => .map _ (.satisfy digitOf)
  | .pair p q => .map _ (.pair p.built q.built)
  | .preceded p q => .preceded p.built q.built
  | .terminated p q => .terminated p.built q.built
  | .delimited l p r => .delimited l.built p.built r.built
  | .map p => .map _ p.built
  | .many p => .map _ (.many p.built)
  | .optional p => .map _ (.optional p.built)
  | .peek p => .map _ (.peek p.built)
  | .absent p => .map _ (.absent p.built)
  | .within name p => .within name p.built
  | .delayed p => p.built
  | .choice ps => .choice (built_parsers ps)

theorem built_parsers : ∀ ps : List Blueprint, ∀ p ∈ parsers ps, Built p
  | [], _, h => absurd h List.not_mem_nil
  | p :: ps, q, h => by
    rcases List.mem_cons.1 h with rfl | h
    · exact p.built
    · exact built_parsers ps q h

end

end Blueprint

namespace Parser

/-- Every nesting of combinators ends and stays in its list; lookahead does not move, repetition is
the longest run, and a choice gives the first success or the fault that got furthest. -/
theorem disciplined_of_built {ι α : Type} [ToString ι] {p : Parser ι α} {items : List ι}
    {start : Nat} (hp : Built p) (hstart : start ≤ items.length) :
    Disciplined p items start ∧
      ∀ ps : List (Parser ι α),
        Chooses (Cursor.at items start) ps (choice ps (Cursor.at items start)) :=
  ⟨hp.keeps.disciplined hstart, chooses_choice⟩

/-- A parser that may succeed without reading anything. -/
theorem disciplined_of_built_digits :
    Built (Blueprint.optional .digit).parser ∧ 1 ≤ ['1', '2', 'a'].length ∧
      Disciplined (Blueprint.optional .digit).parser ['1', '2', 'a'] 1 ∧
        ∀ ps : List (Parser Char Harvest), Chooses (Cursor.at ['1', '2', 'a'] 1) ps
          (choice ps (Cursor.at ['1', '2', 'a'] 1)) :=
  ⟨Blueprint.built _, by decide, disciplined_of_built (Blueprint.built _) (by decide)⟩

/-- It can be repeated: the repetition ends where it reads nothing. -/
example : Blueprint.run (.many (.optional .digit)) ['1', '2', 'a'] 1 =
    .ok (.list [.option (some (.digit 2))], 2) := rfl

end Parser

end Reckoner

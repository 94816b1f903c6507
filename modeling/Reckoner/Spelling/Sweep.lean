import Reckoner.Text.CharClass

/-!
# Sweeping a text from left to right

A rule looks at one place of a text: the character before it, the character there and those behind.
Where it fires it replaces a stretch of at least one character, and the sweep goes on behind the
stretch; elsewhere the character is kept.
-/

namespace Reckoner.Spelling

/-- A stretch to replace: how many characters it has after its first one, and what replaces it. -/
structure Stretch where
  more : Nat
  replacement : List Char

/-- A rule, given the character before the place, the one there, and those behind. -/
abbrev Rule := Option Char → Char → List Char → Option Stretch

/-- The last character of the stretch that starts with `c` and takes `more` of `cs`. -/
def lastChar (c : Char) (cs : List Char) : Nat → Char
  | 0 => c
  | more + 1 => (cs[more]?).getD c

/-- Sweeps a text behind the character `before`; `done` holds what is already written,
backwards. -/
def sweepFrom (rule : Rule) (before : Option Char) (cs done : List Char) : List Char :=
  match cs with
  | [] => done.reverse
  | c :: cs =>
    match rule before c cs with
    | none => sweepFrom rule (some c) cs (c :: done)
    | some s =>
      sweepFrom rule (some (lastChar c cs s.more)) (cs.drop s.more) (s.replacement.reverse ++ done)
termination_by cs.length
decreasing_by
  · simp
  · simp only [List.length_cons, List.length_drop]; omega

def sweep (rule : Rule) (cs : List Char) : List Char := sweepFrom rule none cs []

/-- Whether a word can start behind this character. -/
def opensWord (before : Option Char) : Bool := !before.any Text.isWordChar

/-- Whether a word can end in front of this text. -/
def closesWord (cs : List Char) : Bool := !cs.head?.any Text.isWordChar

theorem sweepFrom_done (rule : Rule) (before : Option Char) (cs done : List Char) :
    sweepFrom rule before cs done = done.reverse ++ sweepFrom rule before cs [] := by
  induction h : cs.length using Nat.strongRecOn generalizing before cs done with
  | ind n ih =>
    cases cs with
    | nil => simp [sweepFrom]
    | cons c cs =>
      simp only [List.length_cons] at h
      rw [sweepFrom, sweepFrom]
      split
      · rw [ih cs.length (by omega) _ _ _ rfl, ih cs.length (by omega) _ _ [c] rfl]
        simp
      · next s _ =>
        have hd : (cs.drop s.more).length < n := by rw [List.length_drop]; omega
        rw [ih _ hd _ _ _ rfl, ih _ hd _ _ (s.replacement.reverse ++ []) rfl]
        simp

@[simp] theorem sweepFrom_nil (rule : Rule) (before : Option Char) :
    sweepFrom rule before [] [] = [] := by simp [sweepFrom]

/-- One step of a sweep. -/
theorem sweepFrom_cons (rule : Rule) (before : Option Char) (c : Char) (cs : List Char) :
    sweepFrom rule before (c :: cs) [] =
      match rule before c cs with
      | none => c :: sweepFrom rule (some c) cs []
      | some s =>
        s.replacement ++ sweepFrom rule (some (lastChar c cs s.more)) (cs.drop s.more) [] := by
  rw [sweepFrom]
  split
  · rw [sweepFrom_done]; simp
  · rw [sweepFrom_done]; simp

end Reckoner.Spelling

import Reckoner.Proofs.Answering
import Reckoner.Proofs.Separating
import Reckoner.Proofs.Spelling.Synonyms

/-!
# Words and signs of operators mean the same

An input with an operator word between blanks gets the answer that it gets with the sign in the word's
place, or a failure of the same kind (`Memory.sameOutcome_operator`). The normal forms differ in blanks
at most (`Spelling.normalize_operator`), and the tokens on both sides of the sign are those of the texts
on its sides (`Token.exists_words?_joined`).
-/

namespace Reckoner

open Spelling (Joined SameAround Spells Phrase foldsTo operatorSigns operatorWords)

namespace Token

/-! ### Tokens around a sign -/

/-- A sign in front of blanks, or at the end, is a token of its own. -/
theorem exists_words?_sign {sign : Char} (hsign : sign ∈ operatorSigns) : ∃ t : Token, ∀ rest,
    rest.head?.all Text.isBlank = true → words? (sign :: rest) = (words? rest).map (t :: ·) := by
  have hfacts : ∀ m ∈ operatorSigns, Text.isBlank m = false ∧ m.isDigit = false ∧ m ≠ '.' :=
    List.all_iff_forall_prop.1 (by decide)
  obtain ⟨hblank, hdigit, hpoint⟩ := hfacts sign hsign
  have hzero := ne_zero_of_not_isDigit hdigit
  have hscan : ∀ rest, scan? (sign :: rest) =
      (scanOperator (sign :: rest) <|> scanParen (sign :: rest) <|> scanWord (sign :: rest)) := by
    intro rest
    rw [scan?, scanBlank_eq_none hblank, scanRadix_eq_none hzero, scanRadix_eq_none hzero,
      scanRadix_eq_none hzero, scanDecimal_eq_none hdigit fun h => hpoint h.1]
    rfl
  have hoperator : ∃ o, ∀ rest, rest.head?.all Text.isBlank = true →
      scanOperator (sign :: rest) = some ⟨.operator o, [sign], rest⟩ := by
    simp only [operatorSigns, List.mem_cons, List.not_mem_nil, or_false] at hsign
    rcases hsign with rfl | rfl | rfl | rfl | rfl
    · refine ⟨.times, fun rest hrest => scanOperator_times ?_⟩
      rintro rest rfl
      cases hrest
    · exact ⟨.divide, fun _ _ => rfl⟩
    · exact ⟨.plus, fun _ _ => rfl⟩
    · exact ⟨.minus, fun _ _ => rfl⟩
    · exact ⟨.percent, fun _ _ => rfl⟩
  obtain ⟨o, ho⟩ := hoperator
  refine ⟨.operator o, fun rest hrest => ?_⟩
  have hs := hscan rest
  rw [ho rest hrest] at hs
  rw [words?_of_scan? hs]
  rfl

theorem exists_words?_joined {sign : Char} (hsign : sign ∈ operatorSigns) : ∃ t : Token,
    ∀ left right cs, Joined left [sign] right cs → words? cs =
      (words? left).bind fun ts => (words? right).map fun us => ts ++ t :: us := by
  obtain ⟨t, ht⟩ := exists_words?_sign hsign
  refine ⟨t, fun left right cs hjoined => ?_⟩
  obtain @⟨gap, gap', hgap, hgap', hleft, hright⟩ := hjoined
  have hbehind : words? (sign :: (gap' ++ right)) = (words? right).map (t :: ·) := by
    rw [ht _ (Spelling.gapped_append hgap' hright), words?_gap hgap']
  cases gap with
  | nil => simp [hleft rfl, hbehind]
  | cons b gap =>
    obtain ⟨hb, hgap⟩ := List.forall_mem_cons.1 hgap
    have hgapped : words? (b :: (gap ++ sign :: (gap' ++ right))) = (words? right).map (t :: ·) := by
      rw [← List.cons_append, words?_gap (List.forall_mem_cons.2 ⟨hb, hgap⟩), hbehind]
    have happend := words?_append hb (gap ++ sign :: (gap' ++ right)) left
    rw [hgapped] at happend
    simpa [Function.comp_def] using happend

theorem words?_of_sameAround {sign : Char} (hsign : sign ∈ operatorSigns) {cs ds : List Char}
    (h : SameAround sign cs ds) : words? cs = words? ds := by
  rcases h with rfl | ⟨left, right, hcs, hds⟩
  · rfl
  · obtain ⟨t, ht⟩ := exists_words?_joined hsign
    rw [ht _ _ _ hcs, ht _ _ _ hds]

end Token

/-! ### Readings -/

/-- Texts with the same tokens are read as the same statement, or refused in the same way. Only the
place of a character that no token starts with may differ. -/
theorem Reading.ofNormal_alike (l : Locale) {cs ds : List Char}
    (h : Token.words? cs = Token.words? ds) :
    ((Reading.ofNormal l cs).bind (·.mapError .reading)).mapError Failure.kind =
      ((Reading.ofNormal l ds).bind (·.mapError .reading)).mapError Failure.kind := by
  unfold Token.words? at h
  unfold Reading.ofNormal
  cases hcs : Token.significant cs with
  | error e =>
    cases hds : Token.significant ds with
    | error e' => rfl
    | ok us => simp [hcs, hds, Except.toOption] at h
  | ok ts =>
    cases hds : Token.significant ds with
    | error e' => simp [hcs, hds, Except.toOption] at h
    | ok us =>
      obtain rfl : ts = us := by simpa [hcs, hds, Except.toOption] using h
      rfl

namespace Memory

/-! ### Outcomes -/

/-- The two inputs get the same answer, after which the memories differ in the recorded text only, or
they fail in the same way. -/
inductive SameOutcome (m : Memory) (d : Display) (l : Locale) (text text' : String) : Prop where
  | answered {a m'} :
      (answering d l text).exec m = (.ok a, record m' (Text.trimmed text) a.value a.formatted) →
      (answering d l text').exec m = (.ok a, record m' (Text.trimmed text') a.value a.formatted) →
        SameOutcome m d l text text'
  | refused {e e'} : (answering d l text).exec m = (.error e, m) →
      (answering d l text').exec m = (.error e', m) → e.kind = e'.kind → SameOutcome m d l text text'

theorem sameOutcome_of_ofInput {l : Locale} {text text' : String}
    (h : (Statement.ofInput l text).mapError Failure.kind =
      (Statement.ofInput l text').mapError Failure.kind) (m : Memory) (d : Display) :
    m.SameOutcome d l text text' := by
  have htext := exec_answering d l text m
  have htext' := exec_answering d l text' m
  cases hst : Statement.ofInput l text with
  | error e =>
    cases hst' : Statement.ofInput l text' with
    | error e' =>
      rw [hst] at htext
      rw [hst'] at htext'
      exact .refused htext htext' (by simpa [hst, hst', Except.mapError] using h)
    | ok st => simp [hst, hst', Except.mapError] at h
  | ok st =>
    cases hst' : Statement.ofInput l text' with
    | error e' => simp [hst, hst', Except.mapError] at h
    | ok st' =>
      obtain rfl : st = st' := by simpa [hst, hst', Except.mapError] using h
      rw [hst] at htext
      rw [hst'] at htext'
      dsimp only at htext htext'
      cases hv : st.valueIn m l with
      | error e =>
        rw [hv] at htext htext'
        exact .refused htext htext' rfl
      | ok v =>
        rw [hv] at htext htext'
        exact .answered htext htext'

end Memory

/-- An input with a visible character is read from its normal form. -/
theorem Statement.ofInput_eq (l : Locale) {text : String} {c : Char} (hc : c ∈ text.toList)
    (hblank : Text.isBlank c = false) (hsize : text.utf8ByteSize ≤ greatestInput) :
    Statement.ofInput l text =
      (Reading.ofNormal l (Spelling.normalize l text.toList)).bind (·.mapError .reading) := by
  have hvisible : Text.trim text.toList ≠ [] :=
    List.ne_nil_of_mem ((Spelling.mem_trim_iff hblank).2 hc)
  rw [Statement.ofInput, Reading.ofInput, checkInput, if_neg (Nat.not_lt.2 hsize), if_neg hvisible]

/-- The text with a word or sign between blanks in it. -/
def around (a mid b : String) : String := a ++ " " ++ mid ++ " " ++ b

theorem toList_around (a mid b : String) :
    (around a mid b).toList = a.toList ++ ' ' :: (mid.toList ++ ' ' :: b.toList) := by
  simp [around]

namespace Memory

/-- An operator word means its sign in any letter case, whatever texts stand around it, in every memory
and every locale. -/
theorem sameOutcome_operator (m : Memory) (d : Display) (l : Locale) {ws : List String} {sign : Char}
    (he : (ws, sign) ∈ operatorWords) {word : String} (hword : Phrase foldsTo ws word.toList)
    (hline : '\n' ∉ word.toList) (a b : String)
    (hlong : (around a word b).utf8ByteSize ≤ greatestInput)
    (hshort : (around a (String.singleton sign) b).utf8ByteSize ≤ greatestInput) :
    m.SameOutcome d l (around a word b) (around a (String.singleton sign) b) := by
  have hsign : sign ∈ operatorSigns := (Spelling.operatorWords_facts _ he).1
  obtain ⟨c, hc, hblank⟩ := (Option.any_eq_true _ _).1 (Spelling.solid_phrase he hword).first
  have hlongMem : c ∈ (around a word b).toList := by
    simp [toList_around, List.mem_of_mem_head? hc]
  have hshortMem : sign ∈ (around a (String.singleton sign) b).toList := by
    simp [toList_around]
  have hlongRead := Statement.ofInput_eq l hlongMem (by simpa using hblank) hlong
  have hshortRead := Statement.ofInput_eq l hshortMem (Spelling.sign_facts sign hsign).1 hshort
  have hsame := Spelling.normalize_operator l he hword hline a.toList b.toList
  have hwords := Token.words?_of_sameAround hsign hsame
  refine sameOutcome_of_ofInput ?_ m d
  rw [hlongRead, hshortRead, toList_around, toList_around, String.toList_singleton]
  exact Reading.ofNormal_alike l hwords

/-- A phrase in mixed case between a number word and an amount with a comment behind it. -/
theorem sameOutcome_operator_multiplied : Memory.new.SameOutcome .standard .english
    (around "two" "Multiplied BY" "$5 # six") (around "two" "*" "$5 # six") := by
  have hmultiplied : Spells foldsTo "multiplied".toList "Multiplied".toList := by
    unfold Spells
    decide
  have hby : Spells foldsTo "by".toList "BY".toList := by
    unfold Spells
    decide
  have hspace : ∀ c ∈ [' '], Text.isBlank c = true := List.forall_mem_singleton.2 rfl
  have hphrase : Phrase foldsTo ["multiplied", "by"] "Multiplied BY".toList :=
    .words hmultiplied (by simp) hspace (.word hby)
  have hentry : (["multiplied", "by"], '*') ∈ operatorWords := by decide
  exact sameOutcome_operator Memory.new .standard .english hentry hphrase (by decide) "two" "$5 # six"
    (by decide) (by decide)

end Memory

end Reckoner

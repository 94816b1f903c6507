import Mathlib.Data.List.Basic
import Reckoner.Json.Read
import Reckoner.Proofs.ReadBack.Parts

/-!
# Numerals are read as they are written

A numeral whose whole part has no zero before other digits is read from its text digit by digit
(`readNumeral_text`). Behind a zero that leads other digits nothing more is read
(`readNumeral_of_zero`).
-/

namespace Reckoner

namespace Decimal

theorem digitValue_of_isDigit {c : Char} (h : c.isDigit = true) :
    digitValue c = c.toNat - '0'.toNat := if_pos h

theorem ofDigits_eq_ofDigitChars {ds : List Char} (h : Digits ds) :
    ofDigits 10 ds = Nat.ofDigitChars 10 ds 0 := by
  rw [ofDigits_eq_foldl, Nat.ofDigitChars_eq_foldl]
  refine List.foldl_ext _ _ _ fun n c hc => ?_
  rw [digitValue_of_isDigit (h c hc), Nat.mul_comm]

theorem ofDigits_toDigits (n : Nat) : ofDigits 10 (Nat.toDigits 10 n) = n := by
  rw [ofDigits_eq_ofDigitChars (digits_toDigits n), Nat.ofDigitChars_ten_toDigits]

end Decimal

namespace Json

open Decimal (Digits Written)

variable {rest : List Char}

/-- What comes next does not go on with a numeral. -/
def Ends (rest : List Char) : Prop :=
  ∀ c cs, rest = c :: cs → c.isDigit = false ∧ c ≠ '.' ∧ c ≠ 'e' ∧ c ≠ 'E'

theorem ends_nil : Ends [] := nofun

theorem ends_cons {c : Char} {cs : List Char}
    (h : c.isDigit = false ∧ c ≠ '.' ∧ c ≠ 'e' ∧ c ≠ 'E') : Ends (c :: cs) := by
  rintro _ _ ⟨⟩
  exact h

theorem readDigits_append {ds : List Char} (hds : Digits ds) (hne : ds ≠ [])
    (hrest : ∀ c cs, rest = c :: cs → c.isDigit = false) :
    readDigits (ds ++ rest) = some (ds, rest) := by
  obtain ⟨htake, hdrop⟩ := Spelling.takeWhile_dropWhile_append hds hrest
  unfold readDigits
  rw [htake, hdrop]
  cases ds with
  | nil => exact absurd rfl hne
  | cons c ds => rfl

/-- Digits of a whole part: a zero stands alone. -/
structure IsWhole (ds : List Char) : Prop where
  nonempty : ds ≠ []
  digits : Digits ds
  zero : ∀ {rest}, ds = '0' :: rest → rest = []

theorem readWhole_append {ds : List Char} (h : IsWhole ds)
    (hrest : ∀ c cs, rest = c :: cs → c.isDigit = false) :
    readWhole (ds ++ rest) = some (ds, rest) := by
  unfold readWhole
  split
  · next tail heq =>
    cases ds with
    | nil => exact absurd rfl h.nonempty
    | cons c ds =>
      obtain ⟨rfl, rfl⟩ := List.cons.inj heq
      rw [h.zero rfl]
      rfl
  · exact readDigits_append h.digits h.nonempty hrest

theorem readPower_toDigits (negative : Bool) (n : Nat)
    (hrest : ∀ c cs, rest = c :: cs → c.isDigit = false) :
    readPower negative (Nat.toDigits 10 n ++ rest) =
      some (some (if negative then -(n : Int) else n), rest) := by
  rw [readPower, readDigits_append (Decimal.digits_toDigits n) Nat.toDigits_ne_nil hrest,
    Option.map_some]
  dsimp only
  rw [Decimal.ofDigits_toDigits]

theorem readExponent_integerText (e : Int) (hrest : ∀ c cs, rest = c :: cs → c.isDigit = false) :
    readExponent ('e' :: (Decimal.integerText true e ++ rest)) = some (some e, rest) := by
  unfold Decimal.integerText
  dsimp only
  by_cases he : e < 0
  · have hvalue : -(e.natAbs : Int) = e := by omega
    rw [if_pos he]
    refine (readPower_toDigits true e.natAbs hrest).trans ?_
    rw [if_pos rfl, hvalue]
  · have hvalue : (e.natAbs : Int) = e := by omega
    rw [if_neg he]
    refine (readPower_toDigits false e.natAbs hrest).trans ?_
    rw [if_neg Bool.false_ne_true, hvalue]

theorem readExponent_of_ends (hrest : Ends rest) : readExponent rest = some (none, rest) := by
  cases rest with
  | nil => rfl
  | cons c cs =>
    obtain ⟨-, -, he, hE⟩ := hrest c cs rfl
    exact if_neg (not_or_intro he hE)

theorem readFraction_append {ds : List Char} (hds : Digits ds)
    (hrest : ∀ c cs, rest = c :: cs → c.isDigit = false ∧ c ≠ '.') :
    readFraction (Decimal.fractionText '.' ds ++ rest) = some (ds, rest) := by
  unfold Decimal.fractionText
  split
  · next hnil =>
    subst hnil
    unfold readFraction
    split
    · next tail heq => exact absurd rfl (hrest _ _ heq).2
    · rfl
  · next hne => exact readDigits_append hds hne fun c cs h => (hrest c cs h).1

/-- The exponent of a numeral in its text, with its sign. -/
def powerText : Option Int → List Char
  | none => []
  | some e => 'e' :: Decimal.integerText true e

theorem readExponent_powerText (e : Option Int) (hrest : Ends rest) :
    readExponent (powerText e ++ rest) = some (e, rest) := by
  cases e with
  | none => exact readExponent_of_ends hrest
  | some e => exact readExponent_integerText e fun c cs h => (hrest c cs h).1

theorem powerText_ends (e : Option Int) (hrest : Ends rest) {c : Char} {cs : List Char}
    (h : powerText e ++ rest = c :: cs) : c.isDigit = false ∧ c ≠ '.' := by
  cases e with
  | none => exact (hrest c cs h).imp_right And.left
  | some e =>
    obtain ⟨rfl, -⟩ := List.cons.inj h
    exact ⟨rfl, by decide⟩

theorem text_eq (w : Written) :
    w.text true = w.whole ++ (Decimal.fractionText '.' w.fraction ++ powerText w.exponent) := by
  unfold Written.text
  cases w.exponent <;> exact List.append_assoc ..

theorem readNumeral_text {w : Written} (hwhole : IsWhole w.whole) (hfraction : Digits w.fraction)
    (negative : Bool) (hrest : Ends rest) :
    readNumeral negative (w.text true ++ rest) = some (.number ⟨negative, w⟩, rest) := by
  have hpower : ∀ c cs, powerText w.exponent ++ rest = c :: cs → c.isDigit = false ∧ c ≠ '.' :=
    fun _ _ h => powerText_ends w.exponent hrest h
  have hbehind : ∀ c cs, Decimal.fractionText '.' w.fraction ++ (powerText w.exponent ++ rest) =
      c :: cs → c.isDigit = false := by
    intro c cs h
    unfold Decimal.fractionText at h
    split at h
    · exact (hpower c cs h).1
    · obtain ⟨rfl, -⟩ := List.cons.inj h
      rfl
  rw [text_eq, List.append_assoc, List.append_assoc, readNumeral, readWhole_append hwhole hbehind,
    Option.bind_eq_bind, Option.bind_some]
  dsimp only
  rw [readFraction_append hfraction hpower, Option.bind_eq_bind, Option.bind_some]
  dsimp only
  rw [readExponent_powerText w.exponent hrest]
  rfl

/-- Behind a zero that leads a whole part nothing more of the numeral is read. -/
theorem readNumeral_of_zero {d : Char} (hd : d.isDigit = true) (cs : List Char) (negative : Bool) :
    readNumeral negative ('0' :: d :: cs) =
      some (.number ⟨negative, ⟨['0'], [], none⟩⟩, d :: cs) := by
  have hne : d ≠ '.' ∧ ¬(d = 'e' ∨ d = 'E') := by
    refine ⟨?_, ?_⟩
    · rintro rfl
      exact nomatch hd
    · rintro (rfl | rfl) <;> exact nomatch hd
  have hfraction : readFraction (d :: cs) = some ([], d :: cs) := by
    unfold readFraction
    split
    · next heq => exact absurd (List.cons.inj heq).1 hne.1
    · rfl
  have hexponent : readExponent (d :: cs) = some (none, d :: cs) := if_neg hne.2
  rw [readNumeral, readWhole, Option.bind_eq_bind, Option.bind_some]
  dsimp only
  rw [hfraction, Option.bind_eq_bind, Option.bind_some]
  dsimp only
  rw [hexponent]
  rfl

end Json

end Reckoner

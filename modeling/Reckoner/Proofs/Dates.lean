import Reckoner.Date
import Reckoner.Proofs.Json.Numerals

/-!
# Dates are read as they are written

A date of the calendar is read from its written form, by either style (`Date.read?_text`): each of its
numbers has at least as many digits as its place, and a hyphen or the end of the text stops it.
-/

namespace Reckoner.Date

open Decimal (Digits)

variable {d : Date} {s : Style} {ds rest : List Char}

/-- The calendar has the date. -/
def Valid (d : Date) : Prop := ofNumbers? d.year d.month d.day = some d

instance (d : Date) : Decidable d.Valid :=
  inferInstanceAs (Decidable (ofNumbers? d.year d.month d.day = some d))

theorem valid_of_ofNumbers? {year : Int} {month day : Nat} (h : ofNumbers? year month day = some d) :
    d.Valid := by
  have hd : d = ⟨year, month, day⟩ := by
    unfold ofNumbers? at h
    split at h
    · exact (Option.some.inj h).symm
    · exact nomatch h
  subst hd
  exact h

theorem Valid.bounds (h : d.Valid) : d.month ≤ 12 ∧ d.day ≤ 31 := by
  unfold Valid ofNumbers? at h
  split at h
  · next hbounds =>
    obtain ⟨-, -, -, hmonth, -, hday⟩ := hbounds
    refine ⟨hmonth, hday.trans ?_⟩
    unfold daysIn
    split
    · split <;> decide
    · split <;> decide
  · exact nomatch h

/-! ### Numbers -/

theorem digits_digits (width n : Nat) : Digits (digits width n) :=
  Digits.append_iff.2 ⟨Decimal.digits_replicate_zero _, Decimal.digits_toDigits n⟩

theorem digits_ne_nil (width n : Nat) : digits width n ≠ [] :=
  List.append_ne_nil_of_right_ne_nil _ Nat.toDigits_ne_nil

theorem length_digits {width n : Nat} (hwidth : 0 < width) (hn : n < 10 ^ width) :
    (digits width n).length = width := by
  have hlength := (Nat.length_toDigits_le_iff (by decide) hwidth).2 hn
  simp only [digits, List.length_append, List.length_replicate]
  omega

theorem ofDigits_digits (width n : Nat) : Decimal.ofDigits 10 (digits width n) = n := by
  rw [Decimal.ofDigits_eq_ofDigitChars (digits_digits width n), digits, Nat.ofDigitChars_append,
    Nat.ofDigitChars_replicate_zero, Nat.mul_zero, Nat.ofDigitChars_ten_toDigits]

/-- The number stops where no more digits may stand, or before what is no digit. -/
theorem number?_append {most : Nat} (hds : Digits ds) (hne : ds ≠ []) (hmost : ds.length ≤ most)
    (hrest : ds.length = most ∨ ∀ c cs, rest = c :: cs → c.isDigit = false) :
    number? most (ds ++ rest) = some (Decimal.ofDigits 10 ds, rest) := by
  have htake : (ds ++ rest).take most = ds ++ rest.take (most - ds.length) := by
    rw [List.take_append, List.take_of_length_le hmost]
  have hstop : ∀ c cs, rest.take (most - ds.length) = c :: cs → c.isDigit = false := by
    intro c cs h
    rcases hrest with hlength | hhead
    · rw [hlength, Nat.sub_self, List.take_zero] at h
      exact nomatch h
    · cases rest with
      | nil =>
        rw [List.take_nil] at h
        exact nomatch h
      | cons c' cs' =>
        have hc : c' = c := by
          cases hk : most - ds.length with
          | zero =>
            rw [hk] at h
            exact nomatch h
          | succ k =>
            rw [hk, List.take_succ_cons] at h
            exact (List.cons.inj h).1
        exact hc ▸ hhead c' cs' rfl
  unfold number?
  dsimp only
  rw [htake, (Spelling.takeWhile_dropWhile_append hds hstop).1, if_neg hne, List.drop_left]

theorem number?_digits {width n : Nat} (hwidth : 0 < width) (hn : n < 10 ^ width)
    (rest : List Char) : number? width (digits width n ++ rest) = some (n, rest) := by
  have hlength := length_digits hwidth hn
  rw [number?_append (digits_digits width n) (digits_ne_nil width n) (Nat.le_of_eq hlength)
    (.inl hlength), ofDigits_digits]

theorem number?_signed (n : Nat) (rest : List Char) :
    number? (digits 4 n ++ '-' :: rest).length (digits 4 n ++ '-' :: rest) =
      some (n, '-' :: rest) := by
  have hstop : ∀ c cs, '-' :: rest = c :: cs → c.isDigit = false := by
    rintro _ _ ⟨⟩
    rfl
  rw [number?_append (digits_digits 4 n) (digits_ne_nil 4 n) (by simp) (.inr hstop), ofDigits_digits]

/-! ### Parts of a date -/

theorem trimLeft_cons {c : Char} (hc : Text.isBlank c = false) (cs : List Char) :
    Text.trimLeft (c :: cs) = c :: cs :=
  List.dropWhile_cons_of_neg (by rw [hc]; exact Bool.false_ne_true)

theorem trimLeft_digits (width n : Nat) (rest : List Char) :
    Text.trimLeft (digits width n ++ rest) = digits width n ++ rest := by
  obtain ⟨c, cs, hcs⟩ := List.exists_cons_of_ne_nil (digits_ne_nil width n)
  have hc : c.isDigit = true := digits_digits width n c (hcs ▸ List.mem_cons_self ..)
  rw [hcs]
  exact trimLeft_cons (Spelling.not_isBlank_of_isDigit hc) _

/-- The year of a date in its written form. -/
def yearText (year : Int) : List Char :=
  if year < 0 then '-' :: digits 4 year.natAbs
  else if 9999 < year then '+' :: digits 4 year.natAbs
  else digits 4 year.natAbs

theorem text_eq (d : Date) :
    d.text.toList = yearText d.year ++ '-' :: (digits 2 d.month ++ '-' :: digits 2 d.day) := by
  rw [text, String.toList_ofList]
  exact List.append_assoc ..

theorem year?_minus (cs : List Char) :
    year? ('-' :: cs) = (number? cs.length cs).map fun p => (-(p.1 : Int), p.2) := by
  rw [year?, trimLeft_cons rfl]
  rfl

theorem year?_plus (cs : List Char) :
    year? ('+' :: cs) = (number? cs.length cs).map fun p => ((p.1 : Int), p.2) := by
  rw [year?, trimLeft_cons rfl]
  rfl

theorem year?_digits (n : Nat) (rest : List Char) :
    year? (digits 4 n ++ rest) =
      (number? 4 (digits 4 n ++ rest)).map fun p => ((p.1 : Int), p.2) := by
  have hfirst : ∀ {c : Char} {cs : List Char}, digits 4 n ++ rest = c :: cs → c.isDigit = true := by
    intro c cs h
    obtain ⟨c', cs', hcs⟩ := List.exists_cons_of_ne_nil (digits_ne_nil 4 n)
    rw [hcs] at h
    obtain ⟨rfl, -⟩ := List.cons.inj h
    exact digits_digits 4 n c' (hcs ▸ List.mem_cons_self ..)
  rw [year?, trimLeft_digits]
  split
  · next heq => exact nomatch hfirst heq
  · next heq => exact nomatch hfirst heq
  · rfl

theorem year?_yearText (year : Int) (rest : List Char) :
    year? (yearText year ++ '-' :: rest) = some (year, '-' :: rest) := by
  unfold yearText
  by_cases hnegative : year < 0
  · have hvalue : -(year.natAbs : Int) = year := by omega
    rw [if_pos hnegative, List.cons_append, year?_minus, number?_signed, Option.map_some]
    exact congrArg (fun y => some (y, '-' :: rest)) hvalue
  · have hvalue : (year.natAbs : Int) = year := by omega
    rw [if_neg hnegative]
    by_cases hgreat : 9999 < year
    · rw [if_pos hgreat, List.cons_append, year?_plus, number?_signed, Option.map_some]
      exact congrArg (fun y => some (y, '-' :: rest)) hvalue
    · rw [if_neg hgreat, year?_digits, number?_digits (by decide) (by omega), Option.map_some]
      exact congrArg (fun y => some (y, '-' :: rest)) hvalue

theorem gap_cons {c : Char} (hc : Text.isBlank c = false) (cs : List Char) :
    s.gap (c :: cs) = c :: cs := by
  unfold Style.gap
  split
  · exact trimLeft_cons hc cs
  · rfl

theorem next?_digits {n : Nat} (hn : n < 10 ^ 2) (rest : List Char) :
    s.next? ('-' :: (digits 2 n ++ rest)) = some (n, rest) := by
  rw [Style.next?, gap_cons rfl]
  show number? 2 (Text.trimLeft (digits 2 n ++ rest)) = _
  rw [trimLeft_digits, number?_digits (by decide) hn]

theorem read?_text (h : d.Valid) (s : Style) : s.read? d.text.toList = some d := by
  obtain ⟨hmonth, hday⟩ := h.bounds
  have hlast : s.next? ('-' :: digits 2 d.day) = some (d.day, []) := by
    have hnext := next?_digits (s := s) (n := d.day) (by omega) []
    rwa [List.append_nil] at hnext
  have hend : s.gap [] = [] := by
    unfold Style.gap
    split <;> rfl
  simp only [Style.read?, text_eq, year?_yearText, Option.bind_eq_bind, Option.bind_some]
  rw [next?_digits (by omega), Option.bind_some, hlast, Option.bind_some, if_pos hend]
  exact h

theorem valid_of_read? (h : s.read? ds = some d) : d.Valid := by
  obtain ⟨⟨year, cs⟩, -, h⟩ := Option.bind_eq_some_iff.1 h
  obtain ⟨⟨month, cs⟩, -, h⟩ := Option.bind_eq_some_iff.1 h
  obtain ⟨⟨day, cs⟩, -, h⟩ := Option.bind_eq_some_iff.1 h
  dsimp only at h
  split at h
  · exact valid_of_ofNumbers? h
  · exact nomatch h

end Reckoner.Date

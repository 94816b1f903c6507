import Reckoner.Proofs.Decimal.Read
import Reckoner.Proofs.Tokenizing

/-!
# What the texts of numbers are read as

A number's text is one token, whose value is the double nearest to the number (`tokens_figure`), but
for two limits: an integer in another base that takes more than 64 bits falls apart into a zero and a
name, and the exponent of a decimal is read up to 65536 only, which shows once the decimal has very
many digits.
-/

namespace Reckoner

namespace Token

open Decimal (Digits fractionText ofDigits)
open Double (Nearest)
open String (utf8Len)

/-! ### Texts of numbers -/

/-- An exponent: `e` or `E`, a sign that may be left out, and digits. -/
structure Power where
  mark : Char
  sign : List Char
  run : List Char

namespace Power

structure Proper (p : Power) : Prop where
  mark : p.mark = 'e' ∨ p.mark = 'E'
  sign : p.sign ∈ [[], ['+'], ['-']]
  nonempty : p.run ≠ []
  digits : Digits p.run

def text (p : Power) : List Char := p.mark :: (p.sign ++ p.run)

/-- The exponent, if its digits are read in this way. -/
def value (read : List Char → Nat) (p : Power) : Int :=
  if p.sign = ['-'] then -(read p.run : Int) else read p.run

end Power

/-- The text of a number: digits of another base behind `0` and the letter of the base, or digits with
a fraction and an exponent, each of which may be left out. -/
inductive Figure where
  | radix (base : Char × Nat × (Char → Bool)) (mark : Char) (run : List Char)
  | decimal (whole fraction : List Char) (power : Option Power)

namespace Figure

def Proper : Figure → Prop
  | radix base mark run =>
    base ∈ radixes ∧ mark.toLower = base.1 ∧ run ≠ [] ∧ ∀ c ∈ run, base.2.2 c = true
  | decimal whole fraction power =>
    Digits whole ∧ Digits fraction ∧ (whole ≠ [] ∨ fraction ≠ []) ∧ ∀ p ∈ power, p.Proper

def text : Figure → List Char
  | radix _ mark run => '0' :: mark :: run
  | decimal whole fraction power => whole ++ fractionText '.' fraction ++ power.elim [] Power.text

/-- The number, if the digits of its exponent are read in this way. -/
def valueBy (read : List Char → Nat) : Figure → ℚ
  | radix base _ run => ofDigits base.2.1 run
  | decimal whole fraction power =>
    ofDigits 10 (whole ++ fraction) * 10 ^ (power.elim 0 (Power.value read) - fraction.length)

/-- The number that is written. -/
def value (n : Figure) : ℚ := n.valueBy (ofDigits 10)

/-- The limits within which a number is read as it is written. -/
def Exact : Figure → Prop
  | radix base _ run => ofDigits base.2.1 run < 2 ^ 64
  | decimal whole fraction power =>
    (∀ p ∈ power, ofDigits 10 p.run < 655360) ∨ whole.length + fraction.length ≤ 65000

end Figure

/-- The text is one token, the double nearest to `q`. -/
def IsNumber (cs : List Char) (q : ℚ) : Prop :=
  ∃ x, tokens cs = .ok [⟨.number x, 0, utf8Len cs, 1⟩] ∧ Nearest q x

/-! ### Texts of one or two tokens -/

theorem tokens_of_scan? {cs : List Char} {t : Token} (h : scan? cs = some ⟨t, cs, []⟩) :
    tokens cs = .ok [⟨t, 0, utf8Len cs, 1⟩] := by
  rw [tokens, tokensFrom_of_scan? h, tokensFrom_nil, List.reverse_singleton, Nat.zero_add]

theorem Literal.isNumber {cs : List Char} {x : Float} {q : ℚ} (h : Literal cs x)
    (hx : Nearest q x) : IsNumber cs q :=
  ⟨x, tokens_of_scan? (scan?_eq_number_iff.2 h), hx⟩

/-! ### Exponents -/

/-- The digits of an exponent are all read, or else it is past the doubles as it is read. -/
theorem exponentValue_cases (run : List Char) : exponentValue run = ofDigits 10 run ∨
    65536 ≤ exponentValue run ∧ 655360 ≤ ofDigits 10 run := by
  rw [exponentValue, Decimal.ofDigits_eq_foldl]
  -- For any two starts: both readings agree so far, or both have passed their limits for good.
  suffices h : ∀ n m : Nat, n = m ∨ 65536 ≤ n ∧ 655360 ≤ m →
      let n' := run.foldl (fun n c => if n < 65536 then n * 10 + Decimal.digitValue c else n) n
      let m' := run.foldl (fun m c => m * 10 + Decimal.digitValue c) m
      n' = m' ∨ 65536 ≤ n' ∧ 655360 ≤ m' from h 0 0 (.inl rfl)
  induction run with
  | nil => exact fun n m h => h
  | cons c run ih =>
    intro n m h
    rw [List.foldl_cons, List.foldl_cons]
    refine ih _ _ ?_
    split <;> omega

section
variable {whole fraction : List Char} (hwhole : Digits whole) (hfraction : Digits fraction)
include hwhole hfraction

theorem ofDigits_lt : ofDigits 10 (whole ++ fraction) < 10 ^ (whole.length + fraction.length) := by
  have hlt := Decimal.place_lt (Decimal.Digits.append_iff.2 ⟨hwhole, hfraction⟩) 0
  rw [List.length_append, Nat.zero_add, Nat.one_mul] at hlt
  rw [Decimal.ofDigits_eq_foldl]
  exact hlt

end

theorem two_pow_lt_ten_pow : 2 ^ 1075 < 10 ^ 324 := by decide +kernel

/-- So many places behind the point a number of `k` digits is read as zero. -/
theorem toDouble_of_lt {c k : Nat} (hc : c < 10 ^ k) {e : Int} (he : e + k ≤ -324) :
    Decimal.toDouble false c e = Double.nearest false 0 1 := by
  refine Decimal.toDouble_eq_zero ?_
  have hcast : (c : ℚ) < 10 ^ k := by exact_mod_cast hc
  have hpower : ((2 ^ 1075 : Nat) : ℚ) < (10 ^ 324 : Nat) := Nat.cast_lt.2 two_pow_lt_ten_pow
  rw [Nat.cast_pow, Nat.cast_pow, Nat.cast_ofNat, Nat.cast_ofNat] at hpower
  calc (c : ℚ) * 10 ^ e < 10 ^ k * 10 ^ e := mul_lt_mul_of_pos_right hcast (by positivity)
    _ = 10 ^ (e + k) := by rw [zpow_add₀ (by norm_num), zpow_natCast, mul_comm]
    _ ≤ 10 ^ (-(324 : Nat) : Int) := zpow_le_zpow_right₀ (by norm_num) he
    _ = (10 ^ 324)⁻¹ := by rw [zpow_neg, zpow_natCast]
    _ ≤ (2 ^ 1075)⁻¹ := inv_anti₀ (by positivity) hpower.le
    _ = 2 ^ (-(1075 : Nat) : Int) := by rw [zpow_neg, zpow_natCast]

/-- Within the limits it does not matter how the digits of the exponent are read. -/
theorem toDouble_power {c k places : Nat} (hc : c < 10 ^ k) (hplaces : places ≤ k) {p : Power}
    (h : ofDigits 10 p.run < 655360 ∨ k ≤ 65000) :
    Decimal.toDouble false c (p.value exponentValue - places) =
      Decimal.toDouble false c (p.value (ofDigits 10) - places) := by
  unfold Power.value
  rcases exponentValue_cases p.run with heq | ⟨hread, hwritten⟩
  · rw [heq]
  · have hk : k ≤ 65000 := h.resolve_left (Nat.not_lt.2 hwritten)
    split
    -- Below zero either exponent makes the number zero, above zero infinite.
    · rw [toDouble_of_lt hc (by omega), toDouble_of_lt hc (by omega)]
    · by_cases hzero : c = 0
      · rw [Decimal.toDouble, Decimal.toDouble, if_pos hzero, if_pos hzero]
      · rw [Decimal.toDouble_of_far hzero (by omega), Decimal.toDouble_of_far hzero (by omega)]

/-! ### Decimals -/

section
variable {whole fraction : List Char} {power : Option Power}
  (h : (Figure.decimal whole fraction power).Proper)
include h

theorem literal_decimal : Literal (Figure.decimal whole fraction power).text
    (Decimal.ofParts false whole fraction (power.elim 0 (Power.value exponentValue))) := by
  obtain ⟨hwhole, hfraction, hne, hpower⟩ := h
  have hexponent : Exponent (power.elim [] Power.text)
      (power.elim 0 (Power.value exponentValue)) := by
    cases power with
    | none => exact .none
    | some p =>
      obtain ⟨hmark, hsign, hrun, hdigits⟩ := hpower p rfl
      exact .some hmark hsign hrun hdigits
  exact .decimal hwhole hfraction hne hexponent

/-- A decimal is never split, and its value is the number that its exponent is read as. -/
theorem isNumber_decimal : IsNumber (Figure.decimal whole fraction power).text
    ((Figure.decimal whole fraction power).valueBy exponentValue) :=
  (literal_decimal h).isNumber (Decimal.toDouble_spec ..)

theorem isNumber_decimal_exact (hexact : (Figure.decimal whole fraction power).Exact) :
    IsNumber (Figure.decimal whole fraction power).text
      (Figure.decimal whole fraction power).value := by
  have hliteral := literal_decimal h
  obtain ⟨hwhole, hfraction, -, -⟩ := h
  have hread : Decimal.ofParts false whole fraction (power.elim 0 (Power.value exponentValue)) =
      Decimal.ofParts false whole fraction (power.elim 0 (Power.value (ofDigits 10))) := by
    cases power with
    | none => rfl
    | some p =>
      exact toDouble_power (ofDigits_lt hwhole hfraction) (Nat.le_add_left ..)
        (hexact.imp_left fun hrun => hrun p rfl)
  rw [hread] at hliteral
  exact hliteral.isNumber (Decimal.toDouble_spec ..)

end

/-! ### Integers in another base -/

theorem radix_inj {r r' : Char × Nat × (Char → Bool)} (hr : r ∈ radixes) (hr' : r' ∈ radixes)
    (h : r.1 = r'.1) : r = r' := by
  simp only [radixes, List.mem_cons, List.not_mem_nil, or_false] at hr hr'
  rcases hr with rfl | rfl | rfl <;> rcases hr' with rfl | rfl | rfl
  all_goals first
    | rfl
    | exact absurd h (by decide)

section
variable {base : Char × Nat × (Char → Bool)} {mark : Char} {run : List Char}
  (h : (Figure.radix base mark run).Proper)
include h

theorem isNumber_radix (hfits : ofDigits base.2.1 run < 2 ^ 64) :
    IsNumber (Figure.radix base mark run).text (Figure.radix base mark run).value := by
  obtain ⟨hradix, hmark, hne, hrun⟩ := h
  exact (Literal.radix hradix hmark hne hrun hfits).isNumber (Double.ofNat_spec _)

theorem mark_facts : mark.isDigit = false ∧ mark ≠ '.' ∧ mark ≠ 'e' ∧ mark ≠ 'E' ∧
    Text.isNameStart mark = true := by
  have hfacts : ∀ m ∈ Spelling.markLetters, radixes.any (m.toLower == ·.1) = true →
      m.isDigit = false ∧ m ≠ '.' ∧ m ≠ 'e' ∧ m ≠ 'E' ∧ Text.isNameStart m = true :=
    List.all_iff_forall_prop.1 (by decide +kernel)
  obtain ⟨hradix, hmark, -, -⟩ := h
  refine hfacts mark (Spelling.mem_markLetters hradix hmark) ?_
  exact List.any_eq_true.2 ⟨base, hradix, beq_iff_eq.2 hmark⟩

theorem isNamePart_of_mem_run {c : Char} (hc : c ∈ run) : Text.isNamePart c = true := by
  have hfacts : ∀ c ∈ Spelling.figureChars, isHexDigit c = true → Text.isNamePart c = true :=
    List.all_iff_forall_prop.1 (by decide +kernel)
  obtain ⟨hradix, -, -, hrun⟩ := h
  have hhex := Spelling.isHexDigit_of_radix hradix (hrun c hc)
  exact hfacts c (Spelling.mem_figureChars_of_isHexDigit hhex) hhex

/-- No keyword is such a letter with digits of the base behind it. -/
theorem ofWord_radix : ofWord (String.ofList (mark :: run)) =
    .identifier (String.ofList (mark :: run)) := by
  have hfacts : ∀ k ∈ Keyword.all, radixes.all (fun r =>
      !(k.text.toList.head?.any (·.toLower == r.1) && (k.text.toList.drop 1).all r.2.2)) = true :=
    List.all_iff_forall_prop.1 (by decide +kernel)
  obtain ⟨hradix, hmark, -, hrun⟩ := h
  have hnone : Keyword.ofText? (String.ofList (mark :: run)) = none := by
    refine List.find?_eq_none.2 fun k hk heq => ?_
    have hword := List.all_eq_true.1 (hfacts k hk) base hradix
    rw [eq_of_beq heq, String.toList_ofList] at hword
    have hall : run.all base.2.2 = true := List.all_eq_true.2 hrun
    simp only [List.head?_cons, Option.any_some, hmark, beq_self_eq_true, List.drop_one, List.tail_cons,
      hall] at hword
    cases hword
  rw [ofWord, hnone]

/-- More than 64 bits are no integer, so that a zero is taken as a decimal. -/
theorem scan?_radix_wide (hwide : 2 ^ 64 ≤ ofDigits base.2.1 run) :
    scan? ('0' :: mark :: run) = some ⟨.number 0, ['0'], mark :: run⟩ := by
  obtain ⟨hdigit, hpoint, hlower, hupper, -⟩ := mark_facts h
  obtain ⟨hradix, hmark, -, hrun⟩ := h
  have hnone : ∀ r ∈ radixes, scanRadix r.1 r.2.1 r.2.2 ('0' :: mark :: run) = none := by
    intro r hr
    by_cases hmark' : mark.toLower = r.1
    · have hsame : r = base := radix_inj hr hradix (hmark'.symm.trans hmark)
      refine if_neg fun hif => Nat.not_lt.2 hwide ?_
      rw [hsame, List.takeWhile_eq_self_iff.2 hrun] at hif
      exact hif.2.2
    · exact scanRadix_of_ne hmark' ..
  have hexponent : scanExponent (mark :: run) = ([], 0, mark :: run) :=
    if_neg fun hif => hif.1.elim hlower hupper
  have hzero : Decimal.ofParts false ['0'] [] 0 = 0 := by decide +kernel
  have hdecimal : scanDecimal ('0' :: mark :: run) = some ⟨.number 0, ['0'], mark :: run⟩ := by
    rw [scanDecimal, List.takeWhile_cons_of_pos rfl, List.dropWhile_cons_of_pos rfl,
      List.takeWhile_cons_of_neg (by simp [hdigit]), List.dropWhile_cons_of_neg (by simp [hdigit]),
      scanFraction_eq_nil fun hif => hpoint hif.1, ← hzero]
    dsimp only
    rw [hexponent]
    rfl
  rw [scan?, scanBlank_eq_none (by decide), hnone ('x', _, _) (by simp [radixes]),
    hnone ('b', _, _) (by simp [radixes]), hnone ('o', _, _) (by simp [radixes]), hdecimal]
  rfl

theorem tokens_radix_wide (hwide : 2 ^ 64 ≤ ofDigits base.2.1 run) :
    tokens (Figure.radix base mark run).text = .ok [⟨.number 0, 0, 1, 1⟩,
      ⟨.identifier (String.ofList (mark :: run)), 1, utf8Len (Figure.radix base mark run).text, 2⟩] := by
  obtain ⟨-, -, -, -, hstart⟩ := mark_facts h
  have hword := scan?_word hstart (fun c hc => isNamePart_of_mem_run h hc) [] (by simp)
  rw [List.append_nil, ofWord_radix h] at hword
  have hsize : utf8Len ('0' :: mark :: run) = 1 + utf8Len (mark :: run) := Nat.add_comm ..
  rw [Figure.text, tokens, tokensFrom_of_scan? (scan?_radix_wide h hwide), tokensFrom_of_scan? hword,
    tokensFrom_nil, hsize]
  rfl

end

/-- The text of a number within the limits is one token, the nearest double. Outside of them an integer
in another base is split, and a decimal is the number that its exponent is read as. -/
theorem tokens_figure (n : Figure) (h : n.Proper) : (n.Exact → IsNumber n.text n.value) ∧
    (¬ n.Exact → match n with
      | .radix _ mark run => tokens n.text = .ok [⟨.number 0, 0, 1, 1⟩,
          ⟨.identifier (String.ofList (mark :: run)), 1, utf8Len n.text, 2⟩]
      | .decimal .. => IsNumber n.text (n.valueBy exponentValue)) := by
  cases n with
  | radix base mark run =>
    exact ⟨isNumber_radix h, fun hwide => tokens_radix_wide h (Nat.not_lt.1 hwide)⟩
  | decimal whole fraction power =>
    exact ⟨isNumber_decimal_exact h, fun _ => isNumber_decimal h⟩

theorem tokens_figure_hex : IsNumber "0xfF".toList 255 := by
  have hproper : (Figure.radix ('x', 16, isHexDigit) 'x' ['f', 'F']).Proper :=
    ⟨by simp [radixes], by decide, by decide, List.all_iff_forall_prop.1 (by decide)⟩
  have hexact : (Figure.radix ('x', 16, isHexDigit) 'x' ['f', 'F']).Exact := by
    show ofDigits 16 ['f', 'F'] < 2 ^ 64
    decide +kernel
  have hvalue : ((ofDigits 16 ['f', 'F'] : Nat) : ℚ) = 255 := by
    rw [show ofDigits 16 ['f', 'F'] = 255 by decide +kernel]
    rfl
  rw [← hvalue]
  exact (tokens_figure _ hproper).1 hexact

/-- The seventeenth digit splits a number. -/
theorem tokens_figure_split :
    (Figure.radix ('x', 16, isHexDigit) 'x' "10000000000000000".toList).Proper ∧
      tokens "0x10000000000000000".toList =
        .ok [⟨.number 0, 0, 1, 1⟩, ⟨.identifier "x10000000000000000", 1, 19, 2⟩] := by
  have hproper : (Figure.radix ('x', 16, isHexDigit) 'x' "10000000000000000".toList).Proper :=
    ⟨by simp [radixes], by decide, by decide, List.all_iff_forall_prop.1 (by decide +kernel)⟩
  have hwide : 2 ^ 64 ≤ ofDigits 16 "10000000000000000".toList := by decide +kernel
  exact ⟨hproper, tokens_radix_wide hproper hwide⟩

end Token

end Reckoner

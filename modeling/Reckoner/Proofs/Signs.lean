import Reckoner.Proofs.Double.Rational
import Reckoner.Proofs.ReadBack.Parts

/-!
# The sign of a shown value

A value is shown with a minus sign in front of nothing but zeros only where its fraction has no places
at all: a plain number or a quantity between minus one half and zero, shown without places and without
an exponent (`text_minus_iff`). The digits of every other text are those of a number that is not
zero, or the sign is left out: by `trimFraction` if there is a fraction, and by `money` in any case.
-/

namespace Reckoner.Double

/-! ### Rounding to places -/

theorem Rounds.le_half {x : ℚ} (h : Rounds x 0) : x ≤ 1 / 2 := by
  have hclose := (abs_le.1 h.close).1
  rw [Nat.cast_zero] at hclose
  linarith

theorem Rounds.eq_zero {x : ℚ} {m : Nat} (h : Rounds x m) (hx : x ≤ 1 / 2) : m = 0 := by
  obtain ⟨-, hclose⟩ := abs_le.1 h.close
  by_contra hne
  have hm : 1 ≤ m := Nat.pos_of_ne_zero hne
  have hm' : (1 : ℚ) ≤ m := by exact_mod_cast hm
  -- one half is the only number left, and it goes to the even neighbour
  have htie : |(m : ℚ) - x| = 1 / 2 := by
    rw [abs_of_nonneg (by linarith)]
    linarith
  have hone : m = 1 := by
    have hone' : (m : ℚ) = 1 := by linarith
    exact_mod_cast hone'
  have heven := h.tie htie
  omega

theorem abs_value (v : Binary) : |v.value| = v.significand * 2 ^ v.exponent := by
  have hpos : (0 : ℚ) < 2 ^ v.exponent := by positivity
  unfold Binary.value Binary.signed
  rw [abs_mul, abs_of_pos hpos]
  split <;> simp

theorem rounds_scaled_places (places : Nat) (v : Binary) :
    Rounds (|v.value| * 10 ^ places) (Decimal.scaled places v) := by
  rw [abs_value]
  unfold Decimal.scaled
  simp only [Nat.pow_eq]
  split
  · next hexponent =>
    obtain ⟨k, hk⟩ := Int.eq_ofNat_of_zero_le hexponent
    rw [hk]
    constructor <;> simp
  · next hexponent =>
    obtain ⟨k, hk⟩ := Int.exists_eq_neg_ofNat (not_le.1 hexponent).le
    have hrounds := rounds_roundDiv (v.significand * 10 ^ places) (Nat.two_pow_pos (-v.exponent).toNat)
    convert hrounds using 1
    simp only [hk, zpow_neg, zpow_natCast, neg_neg, Int.toNat_natCast, Nat.cast_mul, Nat.cast_pow,
      Nat.cast_ofNat]
    ring

end Reckoner.Double

namespace Reckoner.Decimal

/-! ### Digits of zero -/

theorem toDigits_zeros_iff {n : Nat} : (∀ c ∈ Nat.toDigits 10 n, c = '0') ↔ n = 0 := by
  constructor
  · intro hzeros
    by_contra hne
    obtain ⟨c, cs, hdigits⟩ := List.exists_cons_of_ne_nil (Nat.toDigits_ne_nil (n := n) (b := 10))
    have hc := hzeros c (hdigits ▸ List.mem_cons_self ..)
    exact toDigits_ne_zero_cons (Nat.pos_of_ne_zero hne) cs (hc ▸ hdigits)
  · rintro rfl
    simp

theorem isZero_ofUnits_iff {places n : Nat} : (Written.ofUnits places n).IsZero ↔ n = 0 := by
  rw [Written.IsZero, Written.digits_ofUnits, ← toDigits_zeros_iff]
  simp only [padded, List.forall_mem_append, List.mem_replicate]
  tauto

/-- The shortest digits of a number other than zero are not all zeros. -/
theorem not_isZero_scientific {x : Float} {v : Double.Binary} (hread : Double.read x = .finite v)
    (hpos : 0 < v.significand) : ¬ (Layout.scientific.parts v).IsZero := by
  obtain ⟨hhi, hlo, hexponent⟩ := Double.read_bounds hread
  have hcoefficient := (shortest_spec Layout.scientific.tie hpos hhi hlo hexponent).1
  have hdigits : (Layout.scientific.parts v).whole ++ (Layout.scientific.parts v).fraction =
      Nat.toDigits 10 (shortest Layout.scientific.tie v).coefficient := List.take_append_drop 1 _
  rw [Written.IsZero, hdigits, toDigits_zeros_iff]
  exact Nat.ne_of_gt hcoefficient

theorem isZero_trimmed_iff {w : Written} : w.trimmed.IsZero ↔ w.IsZero := by
  obtain ⟨zeros, hkept, hzeros⟩ : ∃ zeros,
      w.fraction.reverse = zeros ++ w.trimmed.fraction.reverse ∧ ∀ c ∈ zeros, c = '0' := by
    refine ⟨w.fraction.reverse.takeWhile (· == '0'), by simp [Written.trimmed], fun c hc => ?_⟩
    exact eq_of_beq (List.mem_takeWhile_imp (p := fun c => c == '0') hc)
  have hmem : ∀ c, c ∈ w.fraction ↔ c ∈ zeros ∨ c ∈ w.trimmed.fraction := by
    intro c
    rw [← List.mem_reverse, hkept, List.mem_append, List.mem_reverse]
  simp only [Written.IsZero, List.forall_mem_append]
  refine and_congr_right fun _ => ⟨fun h c hc => ?_, fun h c hc => h c ((hmem c).2 (.inr hc))⟩
  rcases (hmem c).1 hc with hc | hc
  · exact hzeros c hc
  · exact h c hc

theorem trimmed_ofUnits_zero (places : Nat) : (Written.ofUnits places 0).trimmed = .zero := by
  have hdigits : padded (places + 1) (Nat.toDigits 10 0) = '0' :: List.replicate places '0' := by
    rw [← List.replicate_succ, List.replicate_succ']
    rfl
  rw [Written.ofUnits, hdigits]
  simp [Written.trimmed, Written.zero]

/-- Zero with a fraction loses it, and with it the sign. -/
theorem keptSign_ofUnits {negative : Bool} {places n : Nat} :
    Display.keptSign negative (Written.ofUnits places n) = true ∧
      (Written.ofUnits places n).trimmed.IsZero ↔ negative = true ∧ places = 0 ∧ n = 0 := by
  rw [isZero_trimmed_iff, isZero_ofUnits_iff]
  unfold Display.keptSign
  constructor
  · rintro ⟨hkept, rfl⟩
    simp [trimmed_ofUnits_zero, Written.fraction_ofUnits_eq_nil] at hkept
    exact ⟨hkept.1, hkept.2, rfl⟩
  · rintro ⟨rfl, rfl, rfl⟩
    simp [Written.fraction_ofUnits_eq_nil]

end Reckoner.Decimal

namespace Reckoner.Display

open Decimal (Digits Written signed exponentText fractionText)

/-! ### The digits of a shown number -/

/-- The digits of a shown number; those of an exponent are not among them. -/
def figures (shown : List Char) : List Char := (shown.takeWhile (· != 'e')).filter Char.isDigit

theorem figures_append {cs ds : List Char} (h : 'e' ∉ cs) :
    figures (cs ++ ds) = cs.filter Char.isDigit ++ figures ds := by
  have hall : ∀ c ∈ cs, (c != 'e') = true := fun c hc => bne_iff_ne.2 fun heq => h (heq ▸ hc)
  rw [figures, List.takeWhile_append_of_pos hall, List.filter_append, figures]

theorem figures_exponentText : ∀ e : Option Int, figures (exponentText e) = []
  | none => rfl
  | some _ => rfl

theorem filter_digits {cs : List Char} (h : Digits cs) : cs.filter Char.isDigit = cs :=
  List.filter_eq_self.2 h

theorem filter_groupDigits {sep : Char} (hsep : sep.isDigit = false) : ∀ cs : List Char,
    (groupDigits sep cs).filter Char.isDigit = cs.filter Char.isDigit
  | [] => rfl
  | c :: cs => by
    have hrest := filter_groupDigits hsep cs
    rw [groupDigits]
    split <;> simp [List.filter_cons, hsep, hrest]

theorem filter_fractionText {mark : Char} (hmark : mark.isDigit = false) (fraction : List Char) :
    (fractionText mark fraction).filter Char.isDigit = fraction.filter Char.isDigit := by
  unfold fractionText
  split
  · next hnil => rw [hnil]
  · rw [List.filter_cons, if_neg (by simp [hmark])]

/-- A character that stands between digits: no digit, and nothing that a text starts or ends with. -/
def IsMark (c : Char) : Prop := c.isDigit = false ∧ c ≠ 'e' ∧ c ≠ '-'

instance : DecidablePred IsMark := fun c =>
  inferInstanceAs (Decidable (c.isDigit = false ∧ c ≠ 'e' ∧ c ≠ '-'))

theorem isMark_separators {l : Locale} (hl : l ∈ Locale.catalog) :
    IsMark l.groupSeparator ∧ IsMark l.decimalSeparator :=
  (by decide : ∀ l ∈ Locale.catalog, IsMark l.groupSeparator ∧ IsMark l.decimalSeparator) l hl

theorem isMark_symbol {code : String} {symbol : Char} (h : Currency.symbol? code = some symbol) :
    IsMark symbol := by
  obtain ⟨entry, hentry, rfl⟩ := Option.map_eq_some_iff.1 h
  exact (by decide : ∀ entry ∈ Currency.symbols, IsMark entry.1) entry
    (List.mem_of_find?_eq_some hentry)

/-- A text with the digits of a number, with a minus sign in front or without. -/
structure Shows (shown : List Char) (negative : Bool) (w : Written) : Prop where
  sign : shown.head? = some '-' ↔ negative = true
  digits : figures shown = w.whole ++ w.fraction

section
variable {seps pre text rest : List Char} {w : Written} (negative : Bool)

/-- Marks in front of the number and an exponent behind it are no digits of it. -/
theorem shows_around (htext : Spelling.NumberText seps text) (hseps : ∀ c ∈ seps, IsMark c)
    (hpre : ∀ c ∈ pre, IsMark c) (hrest : figures rest = [])
    (hdigits : text.filter Char.isDigit = w.whole ++ w.fraction) :
    Shows (signed negative [] ++ (pre ++ text ++ rest)) negative w := by
  have hplain : ∀ c ∈ pre ++ text, c ≠ 'e' ∧ c ≠ '-' := by
    intro c hc
    rcases List.mem_append.1 hc with hc | hc
    · exact (hpre c hc).2
    · rcases htext.chars c hc with hdigit | hc
      · constructor <;> rintro rfl <;> cases hdigit
      · exact (hseps c hc).2
  have hnone : pre.filter Char.isDigit = [] :=
    List.filter_eq_nil_iff.2 fun c hc => by simp [(hpre c hc).1]
  have hne : pre ++ text ≠ [] := by
    intro hnil
    have hfirst := htext.first
    rw [(List.append_eq_nil_iff.1 hnil).2] at hfirst
    cases hfirst
  constructor
  · obtain ⟨c, cs, hcons⟩ := List.exists_cons_of_ne_nil hne
    have hc := (hplain c (hcons ▸ List.mem_cons_self ..)).2
    cases negative <;> simp [signed, hcons, hc]
  · have hsign : 'e' ∉ signed negative [] := by cases negative <;> simp [signed]
    have hnosign : (signed negative []).filter Char.isDigit = [] := by cases negative <;> rfl
    rw [figures_append hsign, figures_append fun he => (hplain _ he).1 rfl, List.filter_append,
      hnosign, hnone, hdigits, hrest]
    simp

variable (hw : w.Proper) {group mark : Char} (hmark : IsMark mark)
include hw hmark

theorem shows_mantissa (e : Option Int) :
    Shows (signed negative [] ++ (w.mantissa mark ++ exponentText e)) negative w := by
  rw [← List.nil_append (w.mantissa mark)]
  refine shows_around negative (Spelling.numberText_mantissa hw mark) (by simp [hmark]) (by simp)
    (figures_exponentText e) ?_
  rw [Written.mantissa, List.filter_append, filter_fractionText hmark.1, filter_digits hw.whole,
    filter_digits hw.fraction]

theorem shows_grouped (hgroup : IsMark group) (hpre : ∀ c ∈ pre, IsMark c) :
    Shows (signed negative [] ++ (pre ++ w.grouped group mark)) negative w := by
  rw [← List.append_nil (pre ++ w.grouped group mark)]
  refine shows_around negative (Spelling.numberText_grouped hw group mark) (by simp [hgroup, hmark])
    hpre rfl ?_
  rw [Written.grouped, List.filter_append, filter_groupDigits hgroup.1, filter_fractionText hmark.1,
    filter_digits hw.whole, filter_digits hw.fraction]

end

/-! ### Amounts that are rounded away -/

theorem eq_unsignedZero_or (x : Float) :
    (x == 0) = false ∧ unsignedZero x = x ∨ (x == 0) = true ∧ unsignedZero x = 0 := by
  unfold unsignedZero
  cases x == 0 <;> simp

theorem read_zero : Double.read 0 = .finite ⟨false, 0, -1074⟩ := by decide +kernel

section
variable {x : Float} (hx : x.isFinite = true) {v : Double.Binary}
  (hv : Double.read (unsignedZero x) = .finite v)
include hx hv

theorem of_negative (hneg : v.negative = true) :
    unsignedZero x = x ∧ Double.read x = .finite v ∧ 0 < v.significand := by
  rcases eq_unsignedZero_or x with ⟨hne, heq⟩ | ⟨-, heq⟩
  · rw [heq] at hv
    refine ⟨heq, hv, Nat.pos_of_ne_zero fun hzero => ?_⟩
    exact nomatch hne.symm.trans ((Double.beq_zero_iff hx hv).2 hzero)
  · rw [heq] at hv
    cases read_zero.symm.trans hv
    cases hneg

theorem negative_of_rational_neg (h : Double.rational x < 0) : v.negative = true := by
  obtain ⟨v', hv'⟩ := Double.exists_read_eq_finite hx
  have hpow : (0 : ℚ) < 2 ^ v'.exponent := by positivity
  have hsigned : (v'.signed : ℚ) < 0 := by
    rw [Double.rational, hv'] at h
    exact (neg_iff_pos_of_mul_neg h).2 hpow
  have hsigned' : v'.signed < 0 := by exact_mod_cast hsigned
  unfold Double.Binary.signed at hsigned'
  rcases eq_unsignedZero_or x with ⟨-, heq⟩ | ⟨hzero, -⟩
  · rw [heq] at hv
    cases hv'.symm.trans hv
    by_contra hpos
    rw [if_neg hpos] at hsigned'
    omega
  · have hnone := (Double.beq_zero_iff hx hv').1 hzero
    rw [hnone] at hsigned'
    split at hsigned' <;> omega

/-- The negative numbers that are rounded to no units at all. -/
theorem rounded_away_iff : v.negative = true ∧ Decimal.scaled 0 v = 0 ↔
    -1 / 2 ≤ Double.rational x ∧ Double.rational x < 0 := by
  have hrounds := Double.rounds_scaled_places 0 v
  rw [pow_zero, mul_one] at hrounds
  have hvalue : v.negative = true → Double.rational x = -|v.value| ∧ 0 < |v.value| := by
    intro hneg
    obtain ⟨-, hread, hpos⟩ := of_negative hx hv hneg
    have hpos' : (0 : ℚ) < v.significand := by exact_mod_cast hpos
    rw [Double.rational, hread, Double.abs_value]
    refine ⟨?_, by positivity⟩
    simp [Double.Binary.value, Double.Binary.signed, hneg]
  constructor
  · rintro ⟨hneg, hzero⟩
    obtain ⟨hrational, hpos⟩ := hvalue hneg
    have hhalf := (hzero ▸ hrounds).le_half
    constructor <;> linarith
  · rintro ⟨hhalf, hneg⟩
    have hsign := negative_of_rational_neg hx hv hneg
    obtain ⟨hrational, -⟩ := hvalue hsign
    exact ⟨hsign, hrounds.eq_zero (by linarith)⟩

end

/-! ### Values -/

/-- What a text shows behind its number. -/
def behind (l : Locale) : Kind → List Char
  | .number => []
  | .unit symbol => ' ' :: symbol.toList
  | .currency code =>
    match Currency.symbol? code with
    | some symbol => if l.currencyAfter then [' ', symbol] else []
    | none => ' ' :: code.toList

theorem head?_append_behind (l : Locale) (shown : List Char) (kind : Kind) :
    (shown ++ behind l kind).head? = some '-' ↔ shown.head? = some '-' := by
  have hbehind : (behind l kind).head? ≠ some '-' := by
    unfold behind
    repeat' split
    all_goals simp
  cases shown with
  | nil => simpa using hbehind
  | cons c cs => rfl

/-- The amounts that keep their sign when nothing else is left of them. -/
def RoundedAway (d : Display) (x : Float) : Prop :=
  d.places = 0 ∧ d.isScientific x = false ∧ -1 / 2 ≤ Double.rational x ∧ Double.rational x < 0

section
variable (d : Display) {l : Locale} (hl : l ∈ Locale.catalog) {x : Float} (hx : x.isFinite = true)
include hx hl

theorem exists_shows_number : ∃ negative, ∃ w : Written, Shows (d.number l x) negative w ∧
    (negative = true ∧ w.IsZero ↔ d.RoundedAway x) := by
  obtain ⟨-, hmark⟩ := isMark_separators hl
  obtain ⟨v, hv⟩ := Double.exists_read_eq_finite (isFinite_unsignedZero hx)
  by_cases hscientific : d.isScientific (unsignedZero x) = true
  · let w := Decimal.Layout.scientific.parts v
    have hw : w.Proper := Decimal.Layout.proper_parts _ v
    have htext : d.number l x = signed v.negative [] ++
        (w.mantissa l.decimalSeparator ++ exponentText w.exponent) := by
      rw [number, if_pos hscientific, Decimal.Layout.text, hv]
      exact mapPoint_text hw v.negative l.decimalSeparator
    refine ⟨v.negative, w, htext ▸ shows_mantissa v.negative hw hmark _, iff_of_false ?_ ?_⟩
    · rintro ⟨hneg, hzero⟩
      obtain ⟨-, hread, hpos⟩ := of_negative hx hv hneg
      exact Decimal.not_isZero_scientific hread hpos hzero
    · rintro ⟨-, hnone, -, hneg⟩
      have hsame := (of_negative hx hv (negative_of_rational_neg hx hv hneg)).1
      rw [hsame, hnone] at hscientific
      cases hscientific
  · let w := Written.ofUnits d.places (Decimal.scaled d.places v)
    have hw : w.trimmed.Proper := (Written.proper_ofUnits ..).trimmed
    have htext : d.number l x = signed (keptSign v.negative w) [] ++
        ([] ++ w.trimmed.grouped l.groupSeparator l.decimalSeparator) := by
      rw [number, if_neg hscientific, trimFraction_fixed hv, Written.text_of_exponent_none rfl]
      exact localize_mantissa hw _ l
    refine ⟨keptSign v.negative w, w.trimmed, ?_, ?_⟩
    · rw [htext]
      exact shows_grouped _ hw hmark (isMark_separators hl).1 (by simp)
    · rw [Decimal.keptSign_ofUnits]
      unfold RoundedAway
      rw [← rounded_away_iff hx hv]
      constructor
      · rintro ⟨hneg, hplaces, hzero⟩
        rw [(of_negative hx hv hneg).1, Bool.not_eq_true] at hscientific
        rw [hplaces] at hzero
        exact ⟨hplaces, hscientific, hneg, hzero⟩
      · rintro ⟨hplaces, -, hneg, hzero⟩
        rw [hplaces]
        exact ⟨hneg, rfl, hzero⟩

/-- An amount of money rounded to zero has no sign. -/
theorem exists_shows_money (code : String) : ∃ shown negative, ∃ w : Written,
    d.money l x code = shown ++ behind l (.currency code) ∧ Shows shown negative w ∧
      ¬(negative = true ∧ w.IsZero) := by
  obtain ⟨hgroup, hmark⟩ := isMark_separators hl
  obtain ⟨v, hv⟩ := Double.exists_read_eq_finite (isFinite_unsignedZero hx)
  let w := Written.ofUnits d.currencyPlaces (Decimal.scaled d.currencyPlaces v)
  let sign := v.negative && !decide w.IsZero
  let amount := w.grouped l.groupSeparator l.decimalSeparator
  have hw : w.Proper := Written.proper_ofUnits ..
  have hsigned : ¬(sign = true ∧ w.IsZero) := by
    rintro ⟨hsign, hzero⟩
    simp [sign, hzero] at hsign
  have hshows : ∀ pre, (∀ c ∈ pre, IsMark c) → Shows (signed sign [] ++ (pre ++ amount)) sign w :=
    fun pre hpre => shows_grouped sign hw hmark hgroup hpre
  have hmoney : d.money l x code = signed sign [] ++
      match Currency.symbol? code with
      | some symbol => if l.currencyAfter then amount ++ [' ', symbol] else symbol :: amount
      | none => amount ++ ' ' :: code.toList := d.money_of_read hv l code
  unfold behind
  cases hsymbol : Currency.symbol? code with
  | none => exact ⟨_, sign, w, by simp [hmoney, hsymbol], hshows [] (by simp), hsigned⟩
  | some symbol =>
    by_cases hafter : l.currencyAfter = true
    · exact ⟨_, sign, w, by simp [hmoney, hsymbol, hafter], hshows [] (by simp), hsigned⟩
    · have hpre : ∀ c ∈ [symbol], IsMark c := by simpa using isMark_symbol hsymbol
      exact ⟨_, sign, w, by simp [hmoney, hsymbol, hafter], hshows [symbol] hpre, hsigned⟩

end

section
variable (d : Display) {l : Locale} (hl : l ∈ Locale.catalog) {v : Value}
  (hv : v.amount.isFinite = true)
include hl hv

theorem exists_shows_text :
    ∃ shown negative, ∃ w : Written, (d.text l v).toList = shown ++ behind l v.kind ∧
      Shows shown negative w ∧ (negative = true ∧ w.IsZero ↔
        (∀ code, v.kind ≠ .currency code) ∧ d.RoundedAway v.amount) := by
  obtain ⟨x, kind⟩ := v
  obtain ⟨negative, w, hshows, hiff⟩ := d.exists_shows_number hl hv
  cases kind with
  | number =>
    refine ⟨_, negative, w, ?_, hshows, by simpa using hiff⟩
    simp [text, behind]
  | unit symbol =>
    refine ⟨_, negative, w, ?_, hshows, by simpa using hiff⟩
    simp [text, behind]
  | currency code =>
    obtain ⟨shown, negative, w, hmoney, hshows, hsigned⟩ := d.exists_shows_money hl hv code
    refine ⟨shown, negative, w, ?_, hshows, iff_of_false hsigned fun h => h.1 code rfl⟩
    simp [text, hmoney]

/-- A minus sign stands in front of nothing but zeros only in the text of a number or a quantity
that is shown without places and is rounded to zero. -/
theorem text_minus_iff :
    ∃ shown, (d.text l v).toList = shown ++ behind l v.kind ∧
      ((d.text l v).toList.head? = some '-' ∧ (∀ c ∈ figures shown, c = '0') ↔
        (∀ code, v.kind ≠ .currency code) ∧ d.RoundedAway v.amount) := by
  obtain ⟨shown, negative, w, htext, hshows, hiff⟩ := d.exists_shows_text hl hv
  refine ⟨shown, htext, ?_⟩
  rw [htext, head?_append_behind, hshows.sign, hshows.digits]
  exact hiff

end

/-- With places there is always a digit to go with the sign. -/
theorem text_minus_iff_tenth :
    ∃ shown, "-0,1 km".toList = shown ++ " km".toList ∧ ∃ c ∈ figures shown, c ≠ '0' := by
  obtain ⟨shown, htext, hiff⟩ := text_minus_iff standard (show Locale.german ∈ Locale.catalog by decide)
    (show (⟨-0.1, .unit "km"⟩ : Value).amount.isFinite = true by decide +kernel)
  have hshown : standard.text .german ⟨-0.1, .unit "km"⟩ = "-0,1 km" := by decide +kernel
  rw [hshown] at htext hiff
  refine ⟨shown, htext, ?_⟩
  by_contra hzeros
  push Not at hzeros
  have haway := (hiff.1 ⟨by decide, hzeros⟩).2.1
  cases haway

/-- Without places the sign of a number that is rounded to zero stays. -/
theorem text_minus_iff_unsigned : Locale.english ∈ Locale.catalog ∧ (-0.4 : Float).isFinite = true ∧
    { standard with places := 0 }.text .english (.number (-0.4)) = "-0" ∧
      ∀ c ∈ figures "-0".toList, c = '0' :=
  ⟨by decide, by decide +kernel, by decide +kernel, by simp [figures]⟩

end Reckoner.Display

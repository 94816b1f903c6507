import Reckoner.Proofs.Double
import Reckoner.Proofs.ReadBack.Numbers

/-!
# The texts of the display and their parts

Every text that the display makes of a finite double is a sign and a proper number: of a fixed number
of places (`fixed_of_read`), with the zeros of its fraction left out (`trimFraction_fixed`), or with an
exponent (`exists_scientific`). The locale groups the digits of such a number (`localize_mantissa`) or
only changes its point (`mapPoint_text`).
-/

namespace Reckoner.Decimal

open Double

/-! ### Digits -/

theorem digits_toDigits (n : Nat) : Digits (Nat.toDigits 10 n) := fun _ hc =>
  Nat.isDigit_of_mem_toDigits (by decide) (by decide) hc

theorem digits_replicate_zero (n : Nat) : Digits (List.replicate n '0') := fun c hc => by
  rw [List.eq_of_mem_replicate hc]
  rfl

theorem Digits.take_drop {cs : List Char} (h : Digits cs) (n : Nat) :
    Digits (cs.take n) ∧ Digits (cs.drop n) :=
  ⟨fun c hc => h c (List.mem_of_mem_take hc), fun c hc => h c (List.mem_of_mem_drop hc)⟩

theorem take_ne_nil {digits : List Char} (hne : digits ≠ []) {n : Nat} (hn : 0 < n) :
    digits.take n ≠ [] := by
  have hpos := List.length_pos_iff.2 hne
  refine List.length_pos_iff.1 ?_
  rw [List.length_take]
  omega

/-! ### Signs and exponents -/

/-- A sign is what stands before the rest. -/
theorem signed_eq (negative : Bool) (cs : List Char) :
    signed negative cs = signed negative [] ++ cs := by
  cases negative <;> rfl

/-- The exponent of a number in its text. -/
def exponentText : Option Int → List Char
  | none => []
  | some e => 'e' :: integerText false e

theorem integerText_chars (e : Int) :
    integerText false e ≠ [] ∧ ∀ c ∈ integerText false e, c.isDigit = true ∨ c = '-' := by
  have hdigits : Digits (Nat.toDigits 10 e.natAbs) := digits_toDigits _
  unfold integerText
  dsimp only
  split
  · exact ⟨List.cons_ne_nil _ _, List.forall_mem_cons.2 ⟨.inr rfl, fun c hc => .inl (hdigits c hc)⟩⟩
  · exact ⟨Nat.toDigits_ne_nil, fun c hc => .inl (hdigits c hc)⟩

theorem not_mem_exponentText {x : Char} (hdigit : x.isDigit = false) (hminus : x ≠ '-')
    (he : x ≠ 'e') : ∀ e : Option Int, x ∉ exponentText e
  | none => List.not_mem_nil
  | some e => fun hmem => by
    rcases List.mem_cons.1 hmem with rfl | hmem
    · exact he rfl
    · exact ((integerText_chars e).2 x hmem).elim (fun h => nomatch hdigit.symm.trans h) hminus

theorem Written.text_eq (w : Written) : w.text false = w.mantissa '.' ++ exponentText w.exponent := by
  unfold text
  cases w.exponent <;> rfl

theorem Written.text_of_exponent_none {w : Written} (h : w.exponent = none) :
    w.text false = w.mantissa '.' := by
  rw [text_eq, h]
  exact List.append_nil _

/-! ### A fixed number of places -/

/-- `n` units of `10^-places`, written with that many places. -/
def Written.ofUnits (places n : Nat) : Written :=
  let digits := padded (places + 1) (Nat.toDigits 10 n)
  ⟨digits.take (digits.length - places), digits.drop (digits.length - places), none⟩

theorem Written.digits_ofUnits (places n : Nat) :
    (ofUnits places n).whole ++ (ofUnits places n).fraction =
      padded (places + 1) (Nat.toDigits 10 n) := List.take_append_drop ..

theorem lt_length_padded (places : Nat) (digits : List Char) :
    places < (padded (places + 1) digits).length := by
  simp only [padded, List.length_append, List.length_replicate]
  omega

theorem Written.proper_ofUnits (places n : Nat) : (ofUnits places n).Proper := by
  have hdigits : Digits (padded (places + 1) (Nat.toDigits 10 n)) :=
    Digits.append_iff.2 ⟨digits_replicate_zero _, digits_toDigits n⟩
  have hne : padded (places + 1) (Nat.toDigits 10 n) ≠ [] :=
    List.append_ne_nil_of_right_ne_nil _ Nat.toDigits_ne_nil
  have hlength := lt_length_padded places (Nat.toDigits 10 n)
  obtain ⟨hwhole, hfraction⟩ := hdigits.take_drop
    ((padded (places + 1) (Nat.toDigits 10 n)).length - places)
  exact ⟨take_ne_nil hne (by omega), hwhole, hfraction⟩

/-- Without places there is no fraction, and otherwise there is one. -/
theorem Written.fraction_ofUnits_eq_nil {places n : Nat} :
    (ofUnits places n).fraction = [] ↔ places = 0 := by
  have hlength := lt_length_padded places (Nat.toDigits 10 n)
  simp only [ofUnits, List.drop_eq_nil_iff]
  omega

theorem fixedText_eq (places n : Nat) :
    fixedText places n = (Written.ofUnits places n).text false := by
  rw [Written.text_of_exponent_none rfl, Written.mantissa, fractionText]
  simp only [Written.fraction_ofUnits_eq_nil]
  unfold fixedText
  split
  · next hplaces => simp [Written.ofUnits, hplaces]
  · rfl

theorem fixed_of_read {x : Float} {v : Binary} (h : read x = .finite v) (places : Nat) :
    fixed places x = signed v.negative ((Written.ofUnits places (scaled places v)).text false) := by
  rw [fixed, h, ← fixedText_eq]

/-- All digits of a number are zeros. -/
def Written.IsZero (w : Written) : Prop := ∀ c ∈ w.whole ++ w.fraction, c = '0'

instance (w : Written) : Decidable w.IsZero :=
  inferInstanceAs (Decidable (∀ c ∈ w.whole ++ w.fraction, c = '0'))

theorem Written.Proper.all_mantissa {w : Written} (h : w.Proper) :
    ((w.mantissa '.').all fun c => c == '0' || c == '.') = decide w.IsZero := by
  have hdigits : Digits (w.whole ++ w.fraction) := Digits.append_iff.2 ⟨h.whole, h.fraction⟩
  have hpoint : '.' ∉ w.whole ++ w.fraction := hdigits.not_mem rfl
  have hmem : ∀ c, c ∈ w.mantissa '.' ↔
      c ∈ w.whole ++ w.fraction ∨ c = '.' ∧ w.fraction ≠ [] := by
    intro c
    unfold mantissa fractionText
    split
    · simp_all
    · simp_all
      tauto
  rw [Bool.eq_iff_iff, List.all_eq_true, decide_eq_true_iff]
  constructor
  · intro hall c hc
    have hne : c ≠ '.' := fun heq => hpoint (heq ▸ hc)
    simpa [hne] using hall c ((hmem c).2 (.inl hc))
  · intro hzero c hc
    rcases (hmem c).1 hc with hc | ⟨rfl, -⟩
    · simp [hzero c hc]
    · rfl

/-- A number without the zeros that end its fraction. -/
def Written.trimmed (w : Written) : Written :=
  ⟨w.whole, (w.fraction.reverse.dropWhile (· == '0')).reverse, none⟩

theorem Written.Proper.trimmed {w : Written} (h : w.Proper) : w.trimmed.Proper where
  nonempty := h.nonempty
  whole := h.whole
  fraction := fun c hc =>
    h.fraction c (List.mem_reverse.1 ((List.dropWhile_suffix _).subset (List.mem_reverse.1 hc)))

/-- One zero and no fraction. -/
def Written.zero : Written := ⟨['0'], [], none⟩

/-- Only of zero the text is a minus sign and a zero. -/
theorem Written.Proper.signed_mantissa_eq {w : Written} (h : w.Proper) {negative : Bool} :
    signed negative (w.mantissa '.') = ['-', '0'] ↔
      negative = true ∧ w.whole = ['0'] ∧ w.fraction = [] := by
  obtain ⟨c, cs, hwhole⟩ := List.exists_cons_of_ne_nil h.nonempty
  constructor
  · intro heq
    cases negative with
    | false =>
      have hc : c = '-' := by simp_all [signed, mantissa]
      exact absurd (hc ▸ h.whole c (hwhole ▸ List.mem_cons_self ..)) (by decide)
    | true =>
      simp [signed, mantissa, hwhole, fractionText] at heq ⊢
      grind
  · rintro ⟨rfl, hwhole, hfraction⟩
    simp [signed, mantissa, hwhole, hfraction, fractionText]

/-! ### Arranged digits -/

theorem Written.proper_positional (pointZero : Bool) {digits : List Char} (hdigits : Digits digits)
    (hne : digits ≠ []) (point : Int) : (Written.positional pointZero digits point).Proper := by
  unfold positional
  dsimp only
  by_cases hlow : point ≤ 0
  · rw [if_pos hlow]
    exact ⟨List.cons_ne_nil _ _, List.forall_mem_singleton.2 rfl,
      Digits.append_iff.2 ⟨digits_replicate_zero _, hdigits⟩⟩
  · rw [if_neg hlow]
    by_cases hhigh : (digits.length : Int) ≤ point
    · rw [if_pos hhigh]
      refine ⟨List.append_ne_nil_of_left_ne_nil hne _,
        Digits.append_iff.2 ⟨hdigits, digits_replicate_zero _⟩, ?_⟩
      cases pointZero with
      | true => exact List.forall_mem_singleton.2 rfl
      | false => exact Digits.nil
    · rw [if_neg hhigh]
      obtain ⟨htake, hdrop⟩ := hdigits.take_drop point.toNat
      exact ⟨take_ne_nil hne (by omega), htake, hdrop⟩

/-- Every layout makes proper numbers. -/
theorem Layout.proper_parts (layout : Layout) (v : Binary) : (layout.parts v).Proper := by
  unfold parts arrange
  dsimp only
  split
  · exact Written.proper_positional _ (digits_toDigits _) Nat.toDigits_ne_nil _
  · obtain ⟨htake, hdrop⟩ := (digits_toDigits (shortest layout.tie v).coefficient).take_drop 1
    exact ⟨take_ne_nil Nat.toDigits_ne_nil Nat.one_pos, htake, hdrop⟩

theorem exists_scientific {x : Float} (h : x.isFinite = true) :
    ∃ negative, ∃ w : Written, w.Proper ∧ Layout.scientific.text x = signed negative (w.text false) := by
  obtain ⟨v, hv⟩ := exists_read_eq_finite h
  exact ⟨v.negative, Layout.scientific.parts v, Layout.scientific.proper_parts v,
    by rw [Layout.text, hv]; rfl⟩

end Reckoner.Decimal

namespace Reckoner.Display

open Decimal (Digits Written signed signed_eq fractionText exponentText)

theorem isFinite_unsignedZero {x : Float} (h : x.isFinite = true) :
    (unsignedZero x).isFinite = true := by
  unfold unsignedZero
  split
  · rfl
  · exact h

/-! ### The locale's form of a number -/

theorem splitSign_signed {cs : List Char} (h : cs.head?.any Char.isDigit = true) (negative : Bool) :
    splitSign (signed negative cs) = (negative, cs) := by
  cases negative with
  | true => rfl
  | false =>
    show splitSign cs = (false, cs)
    unfold splitSign
    split
    · exact nomatch h
    · rfl

/-- The decimal point becomes the mark of a locale. -/
def mapPoint (mark : Char) (cs : List Char) : List Char :=
  cs.map fun c => if c = '.' then mark else c

theorem mapPoint_eq {cs : List Char} (h : '.' ∉ cs) (mark : Char) : mapPoint mark cs = cs := by
  refine (List.map_congr_left fun c hc => if_neg fun heq => ?_).trans (List.map_id _)
  exact h (heq ▸ hc)

/-- The sign of a number without the zeros that end its fraction: zero has none if it had one. -/
def keptSign (negative : Bool) (w : Written) : Bool :=
  negative && !decide (w.fraction ≠ [] ∧ w.trimmed = .zero)

/-- The zeros that end a fraction go, and the point goes with the last of its digits. -/
theorem dropZeros_fraction {body fraction : List Char} (hbody : body.getLast?.any Char.isDigit = true)
    (hfraction : Digits fraction) :
    (((body ++ '.' :: fraction).reverse.dropWhile (· == '0')).dropWhile (· == '.')).reverse =
      body ++ fractionText '.' (fraction.reverse.dropWhile (· == '0')).reverse := by
  rw [List.reverse_append, List.reverse_cons, List.append_assoc, List.singleton_append,
    List.dropWhile_append]
  cases hkept : fraction.reverse.dropWhile (· == '0') with
  | nil =>
    rcases List.eq_nil_or_concat body with rfl | ⟨init, c, rfl⟩
    · exact nomatch hbody
    · rw [List.concat_eq_append, List.getLast?_concat] at hbody
      have hc : c ≠ '.' := by
        rintro rfl
        exact nomatch hbody
      simp [fractionText, hc]
  | cons c cs =>
    have hmem : c ∈ fraction := by
      have hsuffix := List.dropWhile_suffix (l := fraction.reverse) (· == '0')
      exact List.mem_reverse.1 (hsuffix.subset (hkept ▸ List.mem_cons_self ..))
    have hc : c ≠ '.' := by
      rintro rfl
      exact hfraction.not_mem rfl hmem
    simp [fractionText, hc]

section
variable {w : Written} (h : w.Proper) (negative : Bool)
include h

theorem mapPoint_text (mark : Char) :
    mapPoint mark (signed negative (w.text false)) =
      signed negative [] ++ (w.mantissa mark ++ exponentText w.exponent) := by
  have hsign : mapPoint mark (signed negative []) = signed negative [] := by cases negative <;> rfl
  have hwhole : mapPoint mark w.whole = w.whole := mapPoint_eq (h.whole.not_mem rfl) mark
  have hfraction : mapPoint mark (fractionText '.' w.fraction) = fractionText mark w.fraction := by
    unfold fractionText
    split
    · rfl
    · exact congrArg (mark :: ·) (mapPoint_eq (h.fraction.not_mem rfl) mark)
  have hexponent : mapPoint mark (exponentText w.exponent) = exponentText w.exponent :=
    mapPoint_eq (Decimal.not_mem_exponentText rfl (by decide) (by decide) w.exponent) mark
  rw [signed_eq, Written.text_eq, Written.mantissa, Written.mantissa]
  simp only [mapPoint, List.map_append] at *
  rw [hsign, hwhole, hfraction, hexponent]

omit negative in
/-- The point parts the digits from the fraction. -/
theorem takeWhile_dropWhile_mantissa : (w.mantissa '.').takeWhile (· != '.') = w.whole ∧
    (w.mantissa '.').dropWhile (· != '.') = fractionText '.' w.fraction := by
  have hpoint : ∀ c ∈ w.whole, (c != '.') = true := fun c hc =>
    bne_iff_ne.2 fun heq => h.whole.not_mem rfl (heq ▸ hc)
  refine Spelling.takeWhile_dropWhile_append hpoint fun c rest heq => ?_
  unfold fractionText at heq
  split at heq
  · exact nomatch heq
  · obtain ⟨rfl, -⟩ := List.cons.inj heq
    rfl

theorem localize_mantissa (l : Locale) :
    localize l (signed negative (w.mantissa '.')) =
      signed negative [] ++ w.grouped l.groupSeparator l.decimalSeparator := by
  obtain ⟨htake, hdrop⟩ := takeWhile_dropWhile_mantissa h
  unfold localize
  rw [splitSign_signed (Spelling.numberText_mantissa h '.').first]
  dsimp only
  rw [htake, hdrop, signed_eq, Written.grouped]
  unfold fractionText
  by_cases hne : w.fraction = []
  · rw [if_pos hne, if_pos hne]
  · rw [if_neg hne, if_neg hne]

/-- The zeros at the end of a fraction go, and if nothing but zero is left then the sign goes too. -/
theorem trimFraction_mantissa : trimFraction (signed negative (w.mantissa '.')) =
    signed (keptSign negative w) (w.trimmed.mantissa '.') := by
  unfold keptSign
  by_cases hne : w.fraction = []
  · have hpoint : '.' ∉ signed negative (w.mantissa '.') := by
      have hwhole := h.whole.not_mem (c := '.') rfl
      rw [Written.mantissa, hne]
      cases negative <;> simpa [signed, fractionText] using hwhole
    rw [trimFraction, if_neg (by simpa using hpoint)]
    simp [Written.mantissa, Written.trimmed, hne]
  · have hsplit : signed negative (w.mantissa '.') =
        signed negative [] ++ w.whole ++ '.' :: w.fraction := by
      rw [signed_eq, Written.mantissa, fractionText, if_neg hne, List.append_assoc]
    have hlast := Spelling.getLast?_digits (signed negative []) h.whole h.nonempty
    have hkept : signed negative [] ++ w.whole ++
        fractionText '.' (w.fraction.reverse.dropWhile (· == '0')).reverse =
          signed negative (w.trimmed.mantissa '.') := by
      rw [List.append_assoc, signed_eq negative (w.trimmed.mantissa '.')]
      rfl
    rw [trimFraction, hsplit, if_pos (by simp), dropZeros_fraction hlast h.fraction, hkept]
    simp only [h.trimmed.signed_mantissa_eq]
    cases negative with
    | false => simp
    | true =>
      have hzero : w.trimmed = .zero ↔ w.trimmed.whole = ['0'] ∧ w.trimmed.fraction = [] := by
        simp [Written.trimmed, Written.zero]
      simp only [true_and, ← hzero]
      split
      · next heq => simp [heq, hne, signed, Written.zero, Written.mantissa, fractionText]
      · next hother => simp [hother]

end

theorem trimFraction_fixed {x : Float} {v : Double.Binary} (h : Double.read x = .finite v)
    (places : Nat) :
    let w := Written.ofUnits places (Decimal.scaled places v)
    trimFraction (Decimal.fixed places x) =
      signed (keptSign v.negative w) (w.trimmed.text false) := by
  intro w
  rw [Decimal.fixed_of_read h, Written.text_of_exponent_none rfl,
    trimFraction_mantissa (Written.proper_ofUnits ..), Written.text_of_exponent_none rfl]

/-! ### Numbers and amounts -/

variable (d : Display)

/-- The text of a number without a locale. -/
def plainNumber (x : Float) : List Char :=
  let x := unsignedZero x
  if d.isScientific x then Decimal.Layout.scientific.text x
  else trimFraction (Decimal.fixed d.places x)

/-- The text of a currency amount without a locale and without its currency. -/
def plainMoney (x : Float) : List Char :=
  let (negative, magnitude) := splitSign (Decimal.fixed d.currencyPlaces (unsignedZero x))
  signed (negative && !magnitude.all fun c => c == '0' || c == '.') magnitude

theorem exists_number {x : Float} (hx : x.isFinite = true) :
    ∃ negative, ∃ w : Written, w.Proper ∧ d.plainNumber x = signed negative (w.text false) ∧
      ∀ l : Locale,
        d.number l x = mapPoint l.decimalSeparator (signed negative (w.text false)) ∨
          w.exponent = none ∧ d.number l x = localize l (signed negative (w.text false)) := by
  have hfinite := isFinite_unsignedZero hx
  by_cases hscientific : d.isScientific (unsignedZero x) = true
  · obtain ⟨negative, w, hw, htext⟩ := Decimal.exists_scientific hfinite
    refine ⟨negative, w, hw, ?_, fun l => .inl ?_⟩
    · rw [plainNumber, if_pos hscientific, htext]
    · rw [number, if_pos hscientific, htext]
      rfl
  · obtain ⟨v, hv⟩ := Double.exists_read_eq_finite hfinite
    let w := Written.ofUnits d.places (Decimal.scaled d.places v)
    have htrim := trimFraction_fixed hv d.places
    refine ⟨keptSign v.negative w, w.trimmed, (Written.proper_ofUnits ..).trimmed, ?_,
      fun l => .inr ⟨rfl, ?_⟩⟩
    · rw [plainNumber, if_neg hscientific, htrim]
    · rw [number, if_neg hscientific, htrim]

section
variable {x : Float} {v : Double.Binary} (h : Double.read (unsignedZero x) = .finite v)
include h

theorem splitSign_fixed (places : Nat) : splitSign (Decimal.fixed places (unsignedZero x)) =
    (v.negative, (Written.ofUnits places (Decimal.scaled places v)).mantissa '.') := by
  rw [Decimal.fixed_of_read h, Written.text_of_exponent_none rfl]
  exact splitSign_signed (Spelling.numberText_mantissa (Written.proper_ofUnits ..) '.').first _

theorem money_of_read (l : Locale) (code : String) :
    let w := Written.ofUnits d.currencyPlaces (Decimal.scaled d.currencyPlaces v)
    let amount := w.grouped l.groupSeparator l.decimalSeparator
    d.money l x code = signed (v.negative && !decide w.IsZero) [] ++
      match Currency.symbol? code with
      | some symbol => if l.currencyAfter then amount ++ [' ', symbol] else symbol :: amount
      | none => amount ++ ' ' :: code.toList := by
  intro w amount
  have hw : w.Proper := Written.proper_ofUnits ..
  have hlocal : localize l (w.mantissa '.') = amount := localize_mantissa hw false l
  rw [money, splitSign_fixed h]
  dsimp only
  rw [hw.all_mantissa, hlocal]
  exact signed_eq _ _

end

theorem exists_money {x : Float} (hx : x.isFinite = true) :
    ∃ negative, ∃ w : Written, w.Proper ∧ d.plainMoney x = signed negative [] ++ w.mantissa '.' ∧
      ∀ (l : Locale) {code : String} {symbol : Char}, Currency.symbol? code = some symbol →
        d.money l x code = signed negative [] ++
          if l.currencyAfter then w.grouped l.groupSeparator l.decimalSeparator ++ [' ', symbol]
          else symbol :: w.grouped l.groupSeparator l.decimalSeparator := by
  obtain ⟨v, hv⟩ := Double.exists_read_eq_finite (isFinite_unsignedZero hx)
  let w := Written.ofUnits d.currencyPlaces (Decimal.scaled d.currencyPlaces v)
  have hw : w.Proper := Written.proper_ofUnits ..
  refine ⟨v.negative && !decide w.IsZero, w, hw, ?_, fun l code symbol hsymbol => ?_⟩
  · rw [plainMoney, splitSign_fixed hv]
    dsimp only
    rw [hw.all_mantissa]
    exact signed_eq _ _
  · rw [d.money_of_read hv, hsymbol]

end Reckoner.Display

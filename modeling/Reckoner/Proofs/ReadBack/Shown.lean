import Reckoner.Proofs.ReadBack.Parts
import Reckoner.Proofs.ReadBack.Quiet

/-!
# What is shown is read

In every locale of the catalog the normal form of a shown number is the number without the locale's
separators: of decimals in groups, of numbers with an exponent, with a unit behind either, and of
amounts with a currency symbol (`normalize_shown`). A text is taken apart into what stands before the
number, the number, and what stands behind it; `normalize_grouped` and `normalize_mantissa` read the
number between the two.
-/

namespace Reckoner.Spelling

open Decimal (signed signed_eq Written exponentText integerText_chars)
open Display (mapPoint mapPoint_text localize_mantissa)

/-! ### Reading a number between its surroundings -/

section
variable {l : Locale} {w : Written} {pre behind : List Char}

theorem mem_amountChars_separators (hl : l ∈ Locale.catalog) :
    l.groupSeparator ∈ amountChars ∧ l.decimalSeparator ∈ amountChars := by
  rcases separators_of_mem hl with ⟨hmark, hsep⟩ | ⟨hmark, hsep | hsep⟩ <;>
    rw [hmark, hsep] <;> decide +kernel

/-- The normal form of a text around a number is up to the rules for numbers and symbols. -/
theorem normalize_around {seps number : List Char} (hpre : ∀ c ∈ pre, c ∈ leadChars)
    (hnumber : NumberText seps number) (hseps : ∀ c ∈ seps, c ∈ amountChars) (h : Trailer behind) :
    normalize l (pre ++ (number ++ behind)) =
      Text.trim (replaceSymbols (normalizeNumbers l (pre ++ (number ++ behind)))) := by
  have hlead : ∀ c ∈ pre, c ∈ amountChars := fun c hc => (leadChars_facts c (hpre c hc)).2.2.2.2
  have hchars : ∀ c ∈ number, c ∈ amountChars := fun c hc =>
    (hnumber.chars c hc).elim mem_amountChars_of_isDigit (hseps c)
  exact normalize_quiet l (.append hlead (.append hchars h.quiet)) (trim_around hpre hnumber h.last)

theorem normalize_grouped (hl : l ∈ Locale.catalog) (hpre : ∀ c ∈ pre, c ∈ leadChars)
    (hw : w.Proper) (h : Trailer behind) (hcloses : closesWord behind = true) :
    normalize l (pre ++ (w.grouped l.groupSeparator l.decimalSeparator ++ behind)) =
      Text.trim (replaceSymbols (pre ++ (w.mantissa '.' ++ behind))) := by
  have hseps : ∀ c ∈ [l.groupSeparator, l.decimalSeparator], c ∈ amountChars :=
    List.forall_mem_cons.2 ⟨(mem_amountChars_separators hl).1,
      List.forall_mem_singleton.2 (mem_amountChars_separators hl).2⟩
  rw [normalize_around hpre (numberText_grouped hw _ _) hseps h,
    normalizeNumbers_grouped hl (before_of_lead hpre) hw h.behind hcloses]

theorem normalize_mantissa (hl : l ∈ Locale.catalog) (hpre : ∀ c ∈ pre, c ∈ leadChars)
    (hw : w.Proper) (h : Trailer behind) :
    normalize l (pre ++ (w.mantissa l.decimalSeparator ++ behind)) =
      Text.trim (replaceSymbols (pre ++ (w.mantissa '.' ++ behind))) := by
  have hseps : ∀ c ∈ [l.decimalSeparator], c ∈ amountChars :=
    List.forall_mem_singleton.2 (mem_amountChars_separators hl).2
  rw [normalize_around hpre (numberText_mantissa hw _) hseps h,
    normalizeNumbers_mantissa hl (before_of_lead hpre) hw h.behind]

/-- A plain number without symbols around it stays as it is. -/
theorem trim_replaceSymbols (hpre : ∀ c ∈ pre, c ∈ leadChars) (hnopre : NoSymbol pre)
    (hw : w.Proper) (h : Trailer behind) (hnobehind : NoSymbol behind) :
    Text.trim (replaceSymbols (pre ++ (w.mantissa '.' ++ behind))) =
      pre ++ (w.mantissa '.' ++ behind) := by
  have hnone : NoSymbol (pre ++ (w.mantissa '.' ++ behind)) :=
    hnopre.append ((NoSymbol.mantissa hw).append hnobehind)
  rw [replaceSymbols_eq hnone]
  exact trim_around hpre (numberText_mantissa hw '.') h.last

end

/-! ### Signs and exponents -/

theorem lead_sign (negative : Bool) : ∀ c ∈ signed negative [], c ∈ leadChars := by
  cases negative with
  | true => exact List.forall_mem_singleton.2 (List.mem_cons_self ..)
  | false => exact fun c hc => absurd hc List.not_mem_nil

theorem noSymbol_sign (negative : Bool) : NoSymbol (signed negative []) := by
  cases negative with
  | true => exact List.forall_mem_singleton.2 rfl
  | false => exact .nil

theorem trailer_exponent {behind : List Char} (h : Trailer behind) :
    ∀ e : Option Int, Trailer (exponentText e ++ behind)
  | none => h
  | some e => .exponent (integerText_chars e).2 (integerText_chars e).1 h

theorem noSymbol_exponentText : ∀ e : Option Int, NoSymbol (exponentText e)
  | none => .nil
  | some e => by
    refine List.forall_mem_cons.2 ⟨rfl, fun c hc => ?_⟩
    rcases (integerText_chars e).2 c hc with hdigit | rfl
    · exact ofSymbol?_plain c (mem_plainChars_of_isDigit hdigit)
    · rfl

/-! ### Numbers and quantities -/

section
variable {l : Locale} (hl : l ∈ Locale.catalog) {w : Written} (hw : w.Proper) (negative : Bool)
  {u : List Char} (hu : u ∈ unitTexts)
include hl hw hu

/-- A decimal in the groups of the locale is read, also with a unit behind it. -/
theorem normalize_localize (hexponent : w.exponent = none) :
    normalize l (Display.localize l (signed negative (w.text false)) ++ u) =
      signed negative (w.text false) ++ u := by
  obtain ⟨htrailer, hcloses, hnone⟩ := unitTexts_facts hu
  have hsign := lead_sign negative
  rw [Written.text_of_exponent_none hexponent, localize_mantissa hw, List.append_assoc,
    normalize_grouped hl hsign hw htrailer hcloses,
    trim_replaceSymbols hsign (noSymbol_sign negative) hw htrailer hnone,
    signed_eq negative (w.mantissa '.'), List.append_assoc]

/-- A number with the mark of the locale is read, whether it has an exponent or not. -/
theorem normalize_mapPoint :
    normalize l (mapPoint l.decimalSeparator (signed negative (w.text false)) ++ u) =
      signed negative (w.text false) ++ u := by
  obtain ⟨htrailer, -, hnone⟩ := unitTexts_facts hu
  have hsign := lead_sign negative
  have htrailer := trailer_exponent htrailer w.exponent
  have hnone := (noSymbol_exponentText w.exponent).append hnone
  have hassoc : ∀ mark, signed negative [] ++ (w.mantissa mark ++ exponentText w.exponent) ++ u =
      signed negative [] ++ (w.mantissa mark ++ (exponentText w.exponent ++ u)) := by
    intro mark
    simp only [List.append_assoc]
  rw [mapPoint_text hw, signed_eq negative (w.text false), Written.text_eq, hassoc, hassoc,
    normalize_mantissa hl hsign hw htrailer,
    trim_replaceSymbols hsign (noSymbol_sign negative) hw htrailer hnone]

end

/-! ### Amounts of a currency -/

theorem ofSymbol?_of_symbol? {code : String} {symbol : Char}
    (h : Currency.symbol? code = some symbol) : Currency.ofSymbol? symbol = some code := by
  have hsymbols : ∀ e ∈ Currency.symbols, Currency.ofSymbol? e.1 = some e.2 :=
    List.all_iff_forall_prop.1 (by decide +kernel)
  obtain ⟨e, he, rfl⟩ := Option.map_eq_some_iff.1 h
  have hcode : e.2 = code := by simpa using List.find?_some he
  exact hcode ▸ hsymbols e (List.mem_of_find?_eq_some he)

/-- An amount with a symbol is read as the plain amount and the code. -/
theorem normalize_money {l : Locale} (hl : l ∈ Locale.catalog) (d : Display) {x : Float}
    (hx : x.isFinite = true) {code : String} {symbol : Char}
    (hsymbol : Currency.symbol? code = some symbol) :
    normalize l (d.money l x code) = d.plainMoney x ++ ' ' :: code.toList := by
  obtain ⟨negative, w, hw, hplain, hmoney⟩ := d.exists_money hx
  have hof := ofSymbol?_of_symbol? hsymbol
  have hsign := lead_sign negative
  have hnosign := noSymbol_sign negative
  have htrim : Text.trim (signed negative [] ++ (w.mantissa '.' ++ ' ' :: code.toList)) =
      signed negative [] ++ (w.mantissa '.' ++ ' ' :: code.toList) :=
    trim_around hsign (numberText_mantissa hw '.') (trailer_code hof).last
  rw [hmoney l hsymbol, hplain, List.append_assoc (signed negative []) (w.mantissa '.')]
  by_cases hafter : l.currencyAfter = true
  · have htrailer := trailer_symbol hof
    rw [if_pos hafter, normalize_grouped hl hsign hw htrailer rfl,
      replaceSymbols_after hof hw (before_of_lead hsign) hnosign htrailer.behind, htrim]
  · have hlead : ∀ c ∈ signed negative [] ++ [symbol], c ∈ leadChars :=
      List.forall_mem_append.2 ⟨hsign, List.forall_mem_singleton.2 (mem_leadChars_of_ofSymbol? hof)⟩
    have hread := normalize_grouped hl hlead hw trailer_nil rfl
    rw [List.append_nil, List.append_nil, List.append_assoc, List.append_assoc] at hread
    rw [if_neg hafter]
    refine hread.trans ?_
    have hreplace := replaceSymbols_before hof hw hnosign (List.forall_mem_nil _) behind_nil .nil
      (by decide +kernel : scaleAt [] = [])
    rw [List.nil_append, List.append_nil, List.append_nil] at hreplace
    rw [List.singleton_append, hreplace, htrim]

/-! ### What the display shows -/

/-- In every locale of the catalog, what is shown of a number is read as that number: in groups, with
an exponent, with a unit behind it, or as an amount with the symbol of its currency. -/
theorem normalize_shown {l : Locale} (hl : l ∈ Locale.catalog) :
    (∀ (negative : Bool) (w : Written), w.Proper → ∀ u ∈ unitTexts,
      (w.exponent = none → normalize l (Display.localize l (signed negative (w.text false)) ++ u) =
        signed negative (w.text false) ++ u) ∧
      normalize l (mapPoint l.decimalSeparator (signed negative (w.text false)) ++ u) =
        signed negative (w.text false) ++ u) ∧
    ∀ (d : Display) (x : Float) (code : String) (symbol : Char), x.isFinite = true →
      Currency.symbol? code = some symbol →
        normalize l (d.money l x code) = d.plainMoney x ++ ' ' :: code.toList := by
  refine ⟨fun negative w hw u hu => ⟨fun hexponent => ?_, ?_⟩, fun d x code symbol hx hsymbol => ?_⟩
  · exact normalize_localize hl hw negative hu hexponent
  · exact normalize_mapPoint hl hw negative hu
  · exact normalize_money hl d hx hsymbol

/-- A German number with its unit, and an amount of euros. -/
theorem normalize_shown_german :
    normalize .german "-1.234.567,5 km".toList = "-1234567.5 km".toList ∧
      normalize .german "50,00 €".toList = "50.00 EUR".toList := by
  have hproper : (⟨"1234567".toList, ['5'], none⟩ : Written).Proper :=
    ⟨by decide, List.all_eq_true.1 (by decide), List.all_eq_true.1 (by decide)⟩
  have hunit : " km".toList ∈ unitTexts := by decide +kernel
  obtain ⟨hnumber, hmoney⟩ := normalize_shown (show Locale.german ∈ Locale.catalog by decide)
  refine ⟨(hnumber true _ hproper _ hunit).1 rfl, ?_⟩
  have hshown : Display.standard.money .german 50 "EUR" = "50,00 €".toList := by decide +kernel
  have hread := hmoney .standard 50 "EUR" '€' rfl rfl
  rw [hshown] at hread
  exact hread

/-- Whatever a display's settings, the text of a finite number is read as the number without the
locale. -/
theorem normalize_number {l : Locale} (hl : l ∈ Locale.catalog) (d : Display) {x : Float}
    (hx : x.isFinite = true) {u : List Char} (hu : u ∈ unitTexts) :
    normalize l (d.number l x ++ u) = d.plainNumber x ++ u := by
  obtain ⟨negative, w, hw, hplain, hnumber⟩ := d.exists_number hx
  rw [hplain]
  rcases hnumber l with hshown | ⟨hexponent, hshown⟩
  · rw [hshown, normalize_mapPoint hl hw negative hu]
  · rw [hshown, normalize_localize hl hw negative hu hexponent]

end Reckoner.Spelling

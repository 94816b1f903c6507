import Reckoner.Proofs.ReadBack.Numbers

/-!
# Amounts with a currency symbol

A symbol next to a plain number, on either side of it, becomes the code behind the number
(`replaceSymbols_before`, `replaceSymbols_after`). What the first two rules leave has no symbol any
more, so that the last one finds nothing.
-/

namespace Reckoner.Spelling

open Decimal (Digits Written fractionText mem_fractionText)
open Text (isDecimal isBlank)
open Currency (ofSymbol?)

/-- The text has no currency symbol. -/
def NoSymbol (cs : List Char) : Prop := ∀ c ∈ cs, ofSymbol? c = none

theorem exists_of_ofSymbol? {symbol : Char} {code : String} (h : ofSymbol? symbol = some code) :
    ∃ e ∈ Currency.symbols, e.1 = symbol ∧ e.2 = code := by
  obtain ⟨e, he, hcode⟩ := Option.map_eq_some_iff.1 h
  exact ⟨e, List.mem_of_find?_eq_some he, by simpa using List.find?_some he, hcode⟩

theorem isBlank_of_ofSymbol? {symbol : Char} {code : String} (h : ofSymbol? symbol = some code) :
    isBlank symbol = false := by
  have hsymbols : ∀ e ∈ Currency.symbols, isBlank e.1 = false :=
    List.all_iff_forall_prop.1 (by decide +kernel)
  obtain ⟨e, he, rfl, -⟩ := exists_of_ofSymbol? h
  exact hsymbols e he

namespace NoSymbol
variable {cs ds : List Char}

theorem nil : NoSymbol [] := fun _ h => absurd h List.not_mem_nil

theorem of_all (h : cs.all (fun c => (ofSymbol? c).isNone) = true) : NoSymbol cs := fun c hc =>
  Option.isNone_iff_eq_none.1 (List.all_eq_true.1 h c hc)

theorem append (hcs : NoSymbol cs) (hds : NoSymbol ds) : NoSymbol (cs ++ ds) :=
  List.forall_mem_append.2 ⟨hcs, hds⟩

theorem digits (h : Digits cs) : NoSymbol cs := fun c hc =>
  ofSymbol?_plain c (mem_plainChars_of_isDigit (h c hc))

theorem mantissa {w : Written} (h : w.Proper) : NoSymbol (w.mantissa '.') := by
  refine (digits h.whole).append fun c hc => ?_
  rcases mem_fractionText h.fraction hc with hdigit | rfl
  · exact ofSymbol?_plain c (mem_plainChars_of_isDigit hdigit)
  · rfl

theorem code {symbol : Char} {code : String} (h : ofSymbol? symbol = some code) :
    NoSymbol (' ' :: code.toList) := by
  have hcodes : ∀ e ∈ Currency.symbols,
      (' ' :: e.2.toList).all (fun c => (ofSymbol? c).isNone) = true :=
    List.all_iff_forall_prop.1 (by decide +kernel)
  obtain ⟨e, he, -, rfl⟩ := exists_of_ofSymbol? h
  exact of_all (hcodes e he)

end NoSymbol

/-- A plain number is an amount, whatever stands behind it. -/
theorem amountAt_mantissa {w : Written} (hw : w.Proper) {behind : List Char} (h : Behind behind) :
    amountAt (w.mantissa '.' ++ behind) = w.mantissa '.' := by
  have hstart : (fractionText '.' w.fraction ++ behind).head?.any isDecimal = false := by
    unfold fractionText
    split
    · exact h.digit
    · rfl
  have hpart : fractionAt (fractionText '.' w.fraction ++ behind) = fractionText '.' w.fraction := by
    unfold fractionText
    split
    · cases behind with
      | nil => rfl
      | cons c cs =>
        unfold fractionAt
        split
        · next heq =>
          rw [List.nil_append] at heq
          exact absurd (heq ▸ List.mem_cons_self ..) h.point
        · rfl
    · next hne =>
      have htake := (hw.fraction.takeWhile_dropWhile_append h.digit).1
      rw [List.cons_append, fractionAt, htake, if_neg hne]
  obtain ⟨htake, hdrop⟩ := hw.whole.takeWhile_dropWhile_append hstart
  rw [amountAt, Written.mantissa, List.append_assoc, htake, hdrop, hpart, if_neg hw.nonempty]

section
variable {pre gap behind : List Char} {symbol : Char} {code : String} {w : Written}

/-- A symbol at the end of a text is before no amount. -/
theorem idle_symbolBefore_last (hpre : NoSymbol pre) (hsymbol : ofSymbol? symbol = some code) :
    Idle symbolBefore (pre ++ [symbol]) := by
  refine .of_none fun before c rest hsuffix => ?_
  rcases List.suffix_concat_iff.1 hsuffix with heq | ⟨t, heq, ht⟩
  · exact nomatch heq
  · cases t with
    | nil =>
      obtain ⟨rfl, rfl⟩ := List.cons.inj heq
      rw [symbolBefore, hsymbol]
      rfl
    | cons x t =>
      obtain ⟨rfl, -⟩ := List.cons.inj heq
      rw [symbolBefore, hpre c (ht.subset (List.mem_cons_self ..))]

variable (hsymbol : ofSymbol? symbol = some code) (hw : w.Proper)
include hsymbol hw

/-- The rule takes a symbol with the amount behind it. -/
theorem sweepFrom_symbolBefore (hgap : ∀ c ∈ gap, isBlank c = true) (hbehind : Behind behind)
    (hnone : NoSymbol behind) (hscale : scaleAt behind = []) (before : Option Char) :
    sweepFrom symbolBefore before (symbol :: (gap ++ (w.mantissa '.' ++ behind))) [] =
      w.mantissa '.' ++ (' ' :: code.toList ++ behind) := by
  have hat := amountAt_mantissa hw hbehind
  have hfirst := (numberText_mantissa hw '.').first
  generalize w.mantissa '.' = amount at hat hfirst
  cases amount with
  | nil => cases hfirst
  | cons c run =>
    have hc : isBlank c = false := not_isBlank_of_isDigit hfirst
    obtain ⟨htake, hdrop⟩ := takeWhile_dropWhile_append hgap
      fun x rest (heq : c :: run ++ behind = x :: rest) => (List.cons.inj heq).1 ▸ hc
    have hfires : symbolBefore before symbol (gap ++ c :: run ++ behind) =
        some ⟨(gap ++ c :: run).length, c :: run ++ ' ' :: code.toList⟩ := by
      rw [symbolBefore, hsymbol, List.append_assoc]
      dsimp only
      rw [htake, hdrop, hat, if_neg (List.cons_ne_nil c run), List.drop_left, hscale,
        List.append_nil, List.length_append]
    have hsweep := sweepFrom_once hfires (idle_symbolBefore hnone)
    rwa [List.append_assoc, List.append_assoc] at hsweep

/-- The rule takes an amount with the symbol behind it. -/
theorem sweepFrom_symbolAfter (hbehind : Behind [' ', symbol]) (before : Option Char) :
    sweepFrom symbolAfter before (w.mantissa '.' ++ [' ', symbol]) [] =
      w.mantissa '.' ++ ' ' :: code.toList := by
  have hat := amountAt_mantissa hw hbehind
  have hfirst := (numberText_mantissa hw '.').first
  generalize w.mantissa '.' = amount at hat hfirst
  have hspace : isBlank ' ' = true := rfl
  have hblanks : [' ', symbol].takeWhile isBlank = [' '] ∧
      [' ', symbol].dropWhile isBlank = [symbol] := by
    simp [isBlank_of_ofSymbol? hsymbol, hspace]
  cases amount with
  | nil => exact nomatch hfirst
  | cons c run =>
    have hdigit : Digits [c] := List.forall_mem_singleton.2 hfirst
    have hc : isDecimal c = true := hdigit.isDecimal c (List.mem_cons_self ..)
    have hdrop : (run ++ [' ', symbol]).drop ((c :: run).length - 1) = [' ', symbol] := by
      rw [List.length_cons, Nat.add_sub_cancel, List.drop_left]
    have hfires : symbolAfter before c (run ++ [' ', symbol] ++ []) =
        some ⟨(run ++ [' ', symbol]).length, c :: run ++ ' ' :: code.toList⟩ := by
      rw [List.cons_append] at hat
      unfold symbolAfter
      rw [List.append_nil, if_pos hc, hat]
      dsimp only
      rw [hdrop, hblanks.1, hblanks.2]
      dsimp only
      rw [hsymbol, List.length_append]
      rfl
    have hidle : Idle symbolAfter [] := .of_none fun _ _ _ h => nomatch List.suffix_nil.1 h
    have hsweep := sweepFrom_once hfires hidle
    rwa [List.append_nil, List.append_nil] at hsweep

/-- A symbol before a number becomes the code behind it. -/
theorem replaceSymbols_before (hpre : NoSymbol pre) (hgap : ∀ c ∈ gap, isBlank c = true)
    (hbehind : Behind behind) (hnone : NoSymbol behind) (hscale : scaleAt behind = []) :
    replaceSymbols (pre ++ symbol :: (gap ++ (w.mantissa '.' ++ behind))) =
      pre ++ (w.mantissa '.' ++ (' ' :: code.toList ++ behind)) := by
  have hfirst : sweep symbolBefore (pre ++ symbol :: (gap ++ (w.mantissa '.' ++ behind))) =
      pre ++ (w.mantissa '.' ++ (' ' :: code.toList ++ behind)) := by
    refine sweep_append (fun c hc before cs => ?_) fun before _ => ?_
    · rw [symbolBefore, hpre c hc]
    · exact sweepFrom_symbolBefore hsymbol hw hgap hbehind hnone hscale before
  have hno : NoSymbol (pre ++ (w.mantissa '.' ++ (' ' :: code.toList ++ behind))) :=
    hpre.append ((NoSymbol.mantissa hw).append ((NoSymbol.code hsymbol).append hnone))
  rw [replaceSymbols, hfirst, (idle_symbolAfter hno).sweep_eq, (idle_symbolAlone hno).sweep_eq]

/-- A symbol behind a number and a blank becomes the code there. -/
theorem replaceSymbols_after (hpre : Before pre) (hnopre : NoSymbol pre)
    (hbehind : Behind [' ', symbol]) :
    replaceSymbols (pre ++ (w.mantissa '.' ++ [' ', symbol])) =
      pre ++ (w.mantissa '.' ++ ' ' :: code.toList) := by
  have hnumber := NoSymbol.mantissa hw
  have hbefore : Idle symbolBefore (pre ++ (w.mantissa '.' ++ [' ', symbol])) := by
    have hbody : NoSymbol (pre ++ (w.mantissa '.' ++ [' '])) :=
      hnopre.append (hnumber.append (List.forall_mem_singleton.2 rfl))
    have hlast := idle_symbolBefore_last hbody hsymbol
    rwa [List.append_assoc, List.append_assoc] at hlast
  have hsecond : sweep symbolAfter (pre ++ (w.mantissa '.' ++ [' ', symbol])) =
      pre ++ (w.mantissa '.' ++ ' ' :: code.toList) := by
    refine sweep_append (fun c hc before cs => ?_) fun before _ => ?_
    · unfold symbolAfter
      rw [(hpre c hc).2.1]
      rfl
    · exact sweepFrom_symbolAfter hsymbol hw hbehind before
  have hnone : NoSymbol (pre ++ (w.mantissa '.' ++ ' ' :: code.toList)) :=
    hnopre.append (hnumber.append (.code hsymbol))
  rw [replaceSymbols, hbefore.sweep_eq, hsecond, (idle_symbolAlone hnone).sweep_eq]

end

end Reckoner.Spelling

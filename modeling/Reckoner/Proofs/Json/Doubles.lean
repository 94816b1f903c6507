import Reckoner.Proofs.Decimal.Shortest
import Reckoner.Proofs.Double.Whole
import Reckoner.Proofs.Json.Reading

/-!
# Every double is read from its text, as a double next to it

The numeral of a double has at most nineteen digits, so that none is dropped, and what it writes is
at most `17976931348623157e292`. Scaling the digits by the power of ten is not exact, but it never
overflows (`isSome_scale`): the text of every double is read as some double (`double?_double`),
though not always as the same one.
-/

namespace Reckoner

namespace Double

theorem read_bounds {x : Float} {v : Binary} (h : read x = .finite v) :
    v.significand < 2 ^ 53 ∧ -1074 ≤ v.exponent ∧ v.exponent ≤ 971 := by
  have hfraction : x.toBits.toNat % fractionSize < 2 ^ 52 := Nat.mod_lt _ (by decide)
  have hbiased : x.toBits.toNat / fractionSize % 2048 < 2048 := Nat.mod_lt _ (by decide)
  have hsize : fractionSize = 2 ^ 52 := rfl
  unfold read readBits at h
  dsimp only at h
  split at h
  · split at h <;> exact nomatch h
  · split at h <;> cases h <;> refine ⟨?_, ?_, ?_⟩ <;> dsimp only [leastExponent] <;> omega

end Double

namespace Decimal

/-- The greatest number that the text of a double writes. -/
def greatest : Nat := 17976931348623157 * 10 ^ 292

open Double hiding mul_one

theorem shortest_greatest (negative : Bool) :
    shortest .even ⟨negative, 2 ^ 53 - 1, 971⟩ = ⟨17976931348623157, 292⟩ := by
  cases negative <;> decide +kernel

/-- The interval of every other double ends below that number. -/
theorem interval_le_greatest {m : Nat} {e : Int} (hm : m < 2 ^ 53) (he : e ≤ 971)
    (hne : ¬(m = 2 ^ 53 - 1 ∧ e = 971)) : ((4 * m + 2 : Nat) : ℚ) * 2 ^ (e - 2) ≤ greatest := by
  have hgreatest : (4 * (2 ^ 53 - 2) + 2) * 2 ^ 969 ≤ greatest := by decide +kernel
  have hgreatest' : ((4 * (2 ^ 53 - 2) + 2 : Nat) : ℚ) * 2 ^ (969 : Nat) ≤ greatest := by
    exact_mod_cast hgreatest
  refine le_trans ?_ hgreatest'
  rw [← zpow_natCast]
  by_cases htop : e = 971
  · have hle : 4 * m + 2 ≤ 4 * (2 ^ 53 - 2) + 2 := by omega
    have hle' : ((4 * m + 2 : Nat) : ℚ) ≤ (4 * (2 ^ 53 - 2) + 2 : Nat) := by exact_mod_cast hle
    rw [show e - 2 = ((969 : Nat) : Int) by omega]
    exact mul_le_mul_of_nonneg_right hle' (by positivity)
  · have hle : 4 * m + 2 ≤ (4 * (2 ^ 53 - 2) + 2) * 2 := by omega
    have hle' : ((4 * m + 2 : Nat) : ℚ) ≤ (4 * (2 ^ 53 - 2) + 2 : Nat) * 2 := by exact_mod_cast hle
    calc ((4 * m + 2 : Nat) : ℚ) * 2 ^ (e - 2)
        ≤ (4 * (2 ^ 53 - 2) + 2 : Nat) * 2 * 2 ^ (((969 : Nat) : Int) - 1) :=
          mul_le_mul hle' (zpow_le_zpow_right₀ (by norm_num) (by omega)) (by positivity)
            (by positivity)
      _ = (4 * (2 ^ 53 - 2) + 2 : Nat) * 2 ^ ((969 : Nat) : Int) := by
          rw [zpow_sub_one₀ (by norm_num), mul_assoc, mul_comm (2 : ℚ), mul_assoc,
            inv_mul_cancel₀ (by norm_num), mul_one]

theorem shortest_le_greatest {v : Binary} (hpos : 0 < v.significand) (hhi : v.significand < 2 ^ 53)
    (hlo : -1074 ≤ v.exponent) (hexp : v.exponent ≤ 971) :
    (shortest .even v).value ≤ greatest := by
  by_cases hgreatest : v.significand = 2 ^ 53 - 1 ∧ v.exponent = 971
  · obtain ⟨negative, significand, exponent⟩ := v
    obtain ⟨rfl, rfl⟩ := hgreatest
    have hpower : (10 : ℚ) ^ (292 : Int) = ((10 ^ 292 : Nat) : ℚ) := by
      rw [Nat.cast_pow]
      exact zpow_ofNat 10 292
    rw [shortest_greatest, value, greatest, hpower, Nat.cast_mul]
  · exact (shortest_spec .even hpos hhi hlo hexp).2.2.2.trans
      (interval_le_greatest hhi hexp hgreatest)

end Decimal

namespace Numeral
open Double hiding ofNat

/-! ### Collecting digits -/

/-- The number that digits make behind a number. -/
def place (n : Nat) (ds : List Char) : Nat := ds.foldl (fun n c => n * 10 + Decimal.digitValue c) n

theorem le_place : ∀ (n : Nat) (ds : List Char), n ≤ place n ds
  | _, [] => le_rfl
  | n, c :: ds => (by omega : n ≤ n * 10 + Decimal.digitValue c).trans (le_place _ ds)

/-- Digits are all collected if their number fits. -/
theorem collect_eq : ∀ {n : Nat} {ds : List Char}, place n ds ≤ greatest →
    collect n ds = (place n ds, [])
  | _, [], _ => rfl
  | n, c :: ds, h => by
    rw [collect, if_pos ((le_place _ ds).trans h)]
    exact collect_eq h

/-! ### Scaling -/

/-- A number is always scaled down. -/
theorem isSome_scale_of_neg {x : Float} {e : Int} (he : e < 0) : (scale x e).isSome = true := by
  unfold scale
  split
  · rw [if_neg (by omega)]
    rfl
  · split
    · rfl
    · rw [if_neg (by omega)]
      exact isSome_scale_of_neg (by omega)
termination_by e.natAbs
decreasing_by omega

theorem tenTo_eq {e : Nat} (he : e ≤ 308) : tenTo e = Double.ofNat (10 ^ e) := by
  rw [tenTo, Decimal.toDouble, if_neg Nat.one_ne_zero, if_pos (Int.natCast_nonneg e),
    if_neg (by omega), Int.toNat_natCast, Nat.one_mul]
  rfl

/-- The greatest digits that may be scaled by each power of ten. -/
theorem scaled_lt_overflow : ∀ e < 309, nearestBits (10 ^ e) 1 < 2047 * 2 ^ 52 ∧
    scaledWhole (min (Decimal.greatest / 10 ^ e) (10 ^ 18)) * scaledWhole (10 ^ e) <
      overflow * 2 ^ 104 := by decide +kernel

theorem nearestBits_lt {n : Nat} (hn : 0 < n) (hle : n ≤ 10 ^ 18) :
    nearestBits n 1 < 2047 * 2 ^ 52 := by
  have hlog : n.log2 ≤ 59 := log2_le_of_lt (hle.trans_lt (by decide))
  have := (wholeSignificand_bounds hn).2
  rw [nearestBits_one hn]
  omega

theorem isSome_scale {n e : Nat} (hn : 0 < n) (hle : n ≤ 10 ^ 18)
    (h : n * 10 ^ e ≤ Decimal.greatest) : (scale (Double.ofNat n) e).isSome = true := by
  have he : e ≤ 308 := by
    have hpower : 10 ^ e < 10 ^ 309 := calc
      10 ^ e ≤ n * 10 ^ e := Nat.le_mul_of_pos_left _ hn
      _ ≤ Decimal.greatest := h
      _ < 10 ^ 309 := by decide +kernel
    have := (Nat.pow_lt_pow_iff_right (by decide)).1 hpower
    omega
  obtain ⟨hfits, hover⟩ := scaled_lt_overflow e (by omega)
  have hbound : n ≤ min (Decimal.greatest / 10 ^ e) (10 ^ 18) :=
    Nat.le_min.2 ⟨(Nat.le_div_iff_mul_le (Nat.pow_pos (by decide))).2 h, hle⟩
  have hfinite : (Double.ofNat n * tenTo e).isInf = false := by
    rw [tenTo_eq he]
    exact isInf_ofNat_mul hn hbound (Nat.pow_pos (by decide)) (nearestBits_lt hn hle) hfits hover
  unfold scale
  rw [Int.natAbs_natCast, if_pos he, if_pos (Int.natCast_nonneg e)]
  dsimp only
  rw [hfinite]
  rfl

/-- A numeral whose digits fit gives a number if they can be scaled. -/
theorem isSome_number? {n : Numeral}
    (hfits : place 0 (n.parts.whole ++ n.parts.fraction) ≤ greatest)
    (hscale : (scale (Double.ofNat (place 0 (n.parts.whole ++ n.parts.fraction)))
      (n.parts.exponent.getD 0 - n.parts.fraction.length)).isSome = true) :
    n.number?.isSome = true := by
  have happend : place 0 (n.parts.whole ++ n.parts.fraction) =
      place (place 0 n.parts.whole) n.parts.fraction := List.foldl_append
  rw [happend] at hfits hscale
  have hexponent : (([] : List Char).length : Int) -
      (n.parts.fraction.length - ([] : List Char).length) + n.parts.exponent.getD 0 =
        n.parts.exponent.getD 0 - n.parts.fraction.length := by
    rw [List.length_nil, Int.natCast_zero]
    omega
  unfold number?
  rw [collect_eq ((le_place _ _).trans hfits)]
  dsimp only
  rw [collect_eq hfits]
  dsimp only
  rw [hexponent]
  split
  · split
    · rfl
    · split <;> rfl
  · rw [real, Option.isSome_map]
    exact hscale

end Numeral

namespace Decimal

open Numeral (place)

/-! ### The digits of a numeral -/

theorem place_lt {ds : List Char} (h : Digits ds) : ∀ n, place n ds < (n + 1) * 10 ^ ds.length := by
  induction ds with
  | nil =>
    intro n
    rw [List.length_nil, Nat.pow_zero, Nat.mul_one]
    exact Nat.lt_succ_self n
  | cons c ds ih =>
    intro n
    obtain ⟨hc, hds⟩ := List.forall_mem_cons.1 h
    have hdigit : digitValue c < 10 := by
      rw [digitValue_of_isDigit hc]
      have hnine : c.toNat ≤ '9'.toNat := by
        simp only [Char.isDigit, Bool.and_eq_true, decide_eq_true_eq] at hc
        exact hc.2
      have hzero : '9'.toNat - '0'.toNat = 9 := rfl
      omega
    calc place n (c :: ds) < (n * 10 + digitValue c + 1) * 10 ^ ds.length := ih hds _
      _ ≤ (n + 1) * 10 * 10 ^ ds.length := Nat.mul_le_mul_right _ (by omega)
      _ = (n + 1) * 10 ^ (ds.length + 1) := by rw [Nat.pow_succ']; ring

theorem place_zeros (k : Nat) (ds : List Char) :
    place 0 (List.replicate k '0' ++ ds) = place 0 ds := by
  induction k with
  | zero => rfl
  | succ k ih => exact ih

theorem place_toDigits (n : Nat) : place 0 (Nat.toDigits 10 n) = n :=
  (ofDigits_eq_foldl 10 _).symm.trans (ofDigits_toDigits n)

theorem toDigits_ne_zero_cons {n : Nat} (hn : 0 < n) : ∀ cs, Nat.toDigits 10 n ≠ '0' :: cs := by
  induction n using Nat.strongRecOn with
  | ind n ih =>
    intro cs h
    rcases Nat.lt_or_ge n 10 with hlt | hge
    · rw [Nat.toDigits_of_lt_base hlt] at h
      have hzero : ∀ d < 10, 0 < d → d.digitChar ≠ '0' := by decide
      exact hzero n hlt hn (List.cons.inj h).1
    · rw [Nat.toDigits_of_base_le (by decide) hge] at h
      obtain ⟨c, ds, hds⟩ := List.exists_cons_of_ne_nil
        (Nat.toDigits_ne_nil : Nat.toDigits 10 (n / 10) ≠ [])
      rw [hds] at h
      obtain ⟨rfl, -⟩ := List.cons.inj h
      exact ih (n / 10) (by omega) (by omega) ds hds

/-- What is written of a decimal with few digits: the digits are those of the decimal, or there is a
fraction, which lowers the exponent. -/
structure Laid (x : Decimal) (w : Written) : Prop where
  whole : Json.IsWhole w.whole
  fits : place 0 (w.whole ++ w.fraction) ≤ 10 ^ 18
  exponent : w.exponent.getD 0 - w.fraction.length < 0 ∨
    place 0 (w.whole ++ w.fraction) = x.coefficient ∧
      w.exponent.getD 0 - w.fraction.length = x.exponent

section
variable {x : Decimal} (hpos : 0 < x.coefficient) (hle : x.coefficient ≤ 10 ^ 18)
include hpos

/-- The first digits of a positive number are a whole part. -/
theorem isWhole_take {n : Nat} (hn : 0 < n) :
    Json.IsWhole ((Nat.toDigits 10 x.coefficient).take n) where
  nonempty := take_ne_nil Nat.toDigits_ne_nil hn
  digits := ((digits_toDigits _).take_drop n).1
  zero {rest} h := by
    obtain ⟨c, ds, hds⟩ := List.exists_cons_of_ne_nil
      (Nat.toDigits_ne_nil : Nat.toDigits 10 x.coefficient ≠ [])
    obtain ⟨n, rfl⟩ := Nat.exists_eq_add_one_of_ne_zero (Nat.ne_of_gt hn)
    rw [hds, List.take_succ_cons] at h
    obtain ⟨rfl, -⟩ := List.cons.inj h
    exact absurd hds (toDigits_ne_zero_cons hpos ds)

include hle

theorem laid_positional {point : Int} (hpoint : point ≤ 16) :
    Laid x (Written.positional true (Nat.toDigits 10 x.coefficient) point) := by
  have hdigits : Digits (Nat.toDigits 10 x.coefficient) := digits_toDigits _
  have hlength : 0 < (Nat.toDigits 10 x.coefficient).length := Nat.length_toDigits_pos
  have hplace := place_toDigits x.coefficient
  have hwhole := isWhole_take hpos hlength
  rw [List.take_length] at hwhole
  unfold Written.positional
  dsimp only
  split
  · -- the point stands in front of all digits
    refine ⟨⟨List.cons_ne_nil _ _, List.forall_mem_singleton.2 rfl, ?_⟩, ?_, .inl ?_⟩
    · rintro rest ⟨⟩
      rfl
    · exact ((place_zeros _ _).trans hplace).trans_le hle
    · rw [List.length_append, Option.getD_none]
      omega
  · split
    · next hshort =>
      -- it stands behind all of them, with zeros in between and a zero behind it
      refine ⟨⟨List.append_ne_nil_of_left_ne_nil hwhole.nonempty _,
        Digits.append_iff.2 ⟨hdigits, digits_replicate_zero _⟩, ?_⟩, ?_, .inl ?_⟩
      · intro rest h
        obtain ⟨c, ds, hds⟩ := List.exists_cons_of_ne_nil hwhole.nonempty
        rw [hds] at h
        obtain ⟨rfl, -⟩ := List.cons.inj h
        exact absurd hds (toDigits_ne_zero_cons hpos ds)
      · have hall : Digits (Nat.toDigits 10 x.coefficient ++
            List.replicate (point.toNat - (Nat.toDigits 10 x.coefficient).length) '0' ++ ['0']) :=
          Digits.append_iff.2 ⟨Digits.append_iff.2 ⟨hdigits, digits_replicate_zero _⟩,
            List.forall_mem_singleton.2 rfl⟩
        refine (place_lt hall 0).le.trans ?_
        rw [Nat.zero_add, Nat.one_mul]
        refine Nat.pow_le_pow_right (by decide) ?_
        simp only [List.length_append, List.length_replicate, List.length_singleton]
        omega
      · show (0 : Int) - (1 : Nat) < 0
        omega
    · -- it stands between two of them
      refine ⟨isWhole_take hpos (by omega), ?_, .inl ?_⟩
      · rw [List.take_append_drop, hplace]
        exact hle
      · rw [List.length_drop, Option.getD_none]
        omega

theorem laid_arrange : Laid x (Layout.data.arrange x) := by
  have hlength : 0 < (Nat.toDigits 10 x.coefficient).length := Nat.length_toDigits_pos
  unfold Layout.arrange
  dsimp only
  split
  · next h =>
    simp only [Layout.data, Bool.and_eq_true, decide_eq_true_eq] at h
    exact laid_positional hpos hle (by omega)
  · refine ⟨isWhole_take hpos Nat.one_pos, ?_, .inr ⟨?_, ?_⟩⟩
    · rw [List.take_append_drop, place_toDigits]
      exact hle
    · rw [List.take_append_drop, place_toDigits]
    · rw [List.length_drop, Option.getD_some]
      omega

end

/-- A numeral of few digits that are not too great is read. -/
theorem Laid.isSome_number? {d : Decimal} {n : Numeral} (h : d.Laid n.parts)
    (hpos : 0 < d.coefficient) (hle : d.coefficient ≤ 10 ^ 18) (hvalue : d.value ≤ greatest) :
    n.number?.isSome = true := by
  refine Numeral.isSome_number? (h.fits.trans (by decide)) ?_
  rcases h.exponent with hneg | ⟨hplace, hexponent⟩
  · exact Numeral.isSome_scale_of_neg hneg
  · rw [hplace, hexponent]
    rcases lt_or_ge d.exponent 0 with hneg | hnonneg
    · exact Numeral.isSome_scale_of_neg hneg
    · obtain ⟨e, he⟩ := Int.eq_ofNat_of_zero_le hnonneg
      rw [value, he, zpow_natCast] at hvalue
      rw [he]
      exact Numeral.isSome_scale hpos hle (by exact_mod_cast hvalue)

end Decimal

namespace Json
open Double

variable {x : Float}

/-- The double that the text of a double is read as. -/
def reread (x : Float) : Float := ((Numeral.ofDouble x).number?).elim x Number.double

/-- The numeral of a double: its whole part has no zero before other digits, and it gives a
number. -/
theorem ofDouble_spec (x : Float) : IsWhole (Numeral.ofDouble x).parts.whole ∧
    (Numeral.ofDouble x).number?.isSome = true := by
  have hzero : IsWhole ['0'] := by
    refine ⟨List.cons_ne_nil _ _, List.forall_mem_singleton.2 rfl, ?_⟩
    rintro _ ⟨⟩
    rfl
  unfold Numeral.ofDouble
  split
  · next v hv =>
    obtain ⟨hhi, hlo, hexp⟩ := read_bounds hv
    rcases Nat.eq_zero_or_pos v.significand with hnone | hpos
    · have hparts : Decimal.Layout.data.parts v = ⟨['0'], ['0'], none⟩ := by
        rw [Decimal.Layout.parts, Decimal.shortest, if_pos hnone]
        decide
      rw [hparts]
      refine ⟨hzero, Numeral.isSome_number? (Nat.zero_le _) (Numeral.isSome_scale_of_neg ?_)⟩
      show (0 : Int) - (1 : Nat) < 0
      omega
    · obtain ⟨hcoefficient, hle, -, -⟩ := Decimal.shortest_spec .even hpos hhi hlo hexp
      have hlaid : (Decimal.shortest .even v).Laid (Decimal.Layout.data.parts v) :=
        Decimal.laid_arrange hcoefficient hle
      exact ⟨hlaid.whole, hlaid.isSome_number? hcoefficient hle
        (Decimal.shortest_le_greatest hpos hhi hlo hexp)⟩
  · exact ⟨hzero, rfl⟩

theorem reads_double (x : Float) : Reads (double x) (double x).compact :=
  reads_number (proper_ofDouble x) (ofDouble_spec x).1

theorem double?_double (x : Float) : double? (double x) = some (reread x) := by
  obtain ⟨n, hn⟩ := Option.isSome_iff_exists.1 (ofDouble_spec x).2
  rw [double, double?, reread, hn]
  rfl

theorem readsBack_iff : ReadsBack x ↔ reread x = x := by
  rw [ReadsBack, (reads_double x).read?, Option.bind_some, double?_double, Option.some_inj]

end Json

end Reckoner

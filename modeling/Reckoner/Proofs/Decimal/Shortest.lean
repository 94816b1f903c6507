import Reckoner.Decimal.Shortest
import Reckoner.Proofs.Double

/-!
# The shortest decimal lies in the interval of its double

The decimals that are tried lie on grids, from the one that the decade of the value gives down to
one that is seventeen places finer. On that one the next decimal above the value is within the
interval (`isSome_onGrid`), so that the search always ends with a decimal of the interval:
`shortest_spec`. It has at most nineteen digits, as its grid is at most seventeen places below the
decade.
-/

namespace Reckoner

/-- The number that a decimal is. -/
def Decimal.value (x : Decimal) : ℚ := x.coefficient * 10 ^ x.exponent

namespace Decimal

open Double hiding mul_one

variable {tie : Tie} {i : Interval} {x : Binary} {n d c : Nat} {k q : Int}

/-! ### Powers with integer exponents -/

theorem zpow_eq_div (a : ℚ) (k : Int) : a ^ k = a ^ k.toNat / a ^ (-k).toNat := by
  rcases Int.le_total 0 k with hk | hk
  · obtain ⟨n, rfl⟩ := Int.eq_ofNat_of_zero_le hk
    simp
  · obtain ⟨n, rfl⟩ := Int.exists_eq_neg_ofNat hk
    simp

theorem two_zpow_le_ten_zpow {a b : Int}
    (h : 2 ^ a.toNat * 10 ^ (-b).toNat ≤ 10 ^ b.toNat * 2 ^ (-a).toNat) : (2 : ℚ) ^ a ≤ 10 ^ b := by
  rw [zpow_eq_div 2, zpow_eq_div 10, div_le_div_iff₀ (by positivity) (by positivity)]
  exact_mod_cast h

theorem ten_zpow_le_two_zpow {a b : Int}
    (h : 10 ^ b.toNat * 2 ^ (-a).toNat ≤ 2 ^ a.toNat * 10 ^ (-b).toNat) : (10 : ℚ) ^ b ≤ 2 ^ a := by
  rw [zpow_eq_div 2, zpow_eq_div 10, div_le_div_iff₀ (by positivity) (by positivity)]
  exact_mod_cast h

/-! ### The decade of a quotient -/

/-- The power of ten that belongs to a binary order, one off at most. -/
def estimate (order : Int) : Int := order * 30103 / 100000

/-- All orders that the doubles have. -/
theorem estimate_facts : ∀ j : Nat, j < 2301 →
    (let a : Int := (j : Int) - 1150 + 1
      let b : Int := estimate ((j : Int) - 1150) + 2
      2 ^ a.toNat * 10 ^ (-b).toNat ≤ 10 ^ b.toNat * 2 ^ (-a).toNat) ∧
    (let a : Int := (j : Int) - 1150 - 1
      let b : Int := estimate ((j : Int) - 1150) - 1
      10 ^ b.toNat * 2 ^ (-a).toNat ≤ 2 ^ a.toNat * 10 ^ (-b).toNat) := by decide +kernel

theorem estimate_bounds {order : Int} (hlo : -1150 ≤ order) (hhi : order ≤ 1150) :
    (10 : ℚ) ^ (estimate order - 1) ≤ 2 ^ (order - 1) ∧
      (2 : ℚ) ^ (order + 1) ≤ 10 ^ (estimate order + 2) := by
  obtain ⟨hup, hdown⟩ := estimate_facts (order + 1150).toNat (by omega)
  have horder : (((order + 1150).toNat : Nat) : Int) - 1150 = order := by omega
  rw [horder] at hup hdown
  exact ⟨ten_zpow_le_two_zpow hdown, two_zpow_le_ten_zpow hup⟩

/-- Of three neighbouring powers of ten the greatest that a number reaches; the least is taken for
granted. -/
def firstReached (x : ℚ) (k : Int) : Int :=
  if (10 : ℚ) ^ (k + 1) ≤ x then k + 1 else if (10 : ℚ) ^ k ≤ x then k else k - 1

theorem le_quotient_iff (hd : 0 < d) (k : Int) :
    (if 0 ≤ k then decide (d * Nat.pow 10 k.toNat ≤ n)
      else decide (d ≤ n * Nat.pow 10 (-k).toNat)) = true ↔ (10 : ℚ) ^ k ≤ n / d := by
  have hd' : (0 : ℚ) < d := by exact_mod_cast hd
  rw [zpow_eq_div, div_le_div_iff₀ (by positivity) hd']
  split
  · next hk =>
    have hneg : (-k).toNat = 0 := by omega
    rw [hneg, pow_zero, mul_one, mul_comm, decide_eq_true_eq]
    exact_mod_cast Iff.rfl
  · next hk =>
    have hpos : k.toNat = 0 := by omega
    rw [hpos, pow_zero, one_mul, decide_eq_true_eq]
    exact_mod_cast Iff.rfl

theorem decade_eq (hd : 0 < d) : decade n d = firstReached (n / d) (estimate (n.log2 - d.log2)) :=
  if_congr (le_quotient_iff hd _) rfl (if_congr (le_quotient_iff hd _) rfl rfl)

theorem order_bounds (hn : 0 < n) (hd : 0 < d) :
    (2 : ℚ) ^ ((n.log2 : Int) - d.log2 - 1) < n / d ∧
      (n : ℚ) / d < 2 ^ ((n.log2 : Int) - d.log2 + 1) := by
  have hd' : (0 : ℚ) < d := by exact_mod_cast hd
  have hnlo : (2 : ℚ) ^ n.log2 ≤ n := by exact_mod_cast Nat.log2_self_le (Nat.ne_of_gt hn)
  have hnhi : (n : ℚ) < 2 ^ (n.log2 + 1) := by exact_mod_cast Nat.lt_log2_self
  have hdlo : (2 : ℚ) ^ d.log2 ≤ d := by exact_mod_cast Nat.log2_self_le (Nat.ne_of_gt hd)
  have hdhi : (d : ℚ) < 2 ^ (d.log2 + 1) := by exact_mod_cast Nat.lt_log2_self
  constructor
  · have heq : (2 : ℚ) ^ ((n.log2 : Int) - d.log2 - 1) = 2 ^ n.log2 / 2 ^ (d.log2 + 1) := by
      rw [show (n.log2 : Int) - d.log2 - 1 = n.log2 - ((d.log2 + 1 : Nat) : Int) by push_cast; ring,
        zpow_sub₀ (by norm_num), zpow_natCast, zpow_natCast]
    rw [heq]
    exact div_lt_div₀' hnlo hdhi (by positivity) hd'
  · have heq : (2 : ℚ) ^ ((n.log2 : Int) - d.log2 + 1) = 2 ^ (n.log2 + 1) / 2 ^ d.log2 := by
      rw [show (n.log2 : Int) - d.log2 + 1 = ((n.log2 + 1 : Nat) : Int) - d.log2 by push_cast; ring,
        zpow_sub₀ (by norm_num), zpow_natCast, zpow_natCast]
    rw [heq]
    exact div_lt_div₀ hnhi hdlo (by positivity) (by positivity)

theorem decade_spec (hn : 0 < n) (hd : 0 < d) (hlo : -1150 ≤ (n.log2 : Int) - d.log2)
    (hhi : (n.log2 : Int) - d.log2 ≤ 1150) :
    (10 : ℚ) ^ decade n d ≤ n / d ∧ (n : ℚ) / d < 10 ^ (decade n d + 1) := by
  obtain ⟨hbelow, habove⟩ := order_bounds hn hd
  obtain ⟨hdown, hup⟩ := estimate_bounds hlo hhi
  have hunder : (10 : ℚ) ^ (estimate (n.log2 - d.log2) - 1) ≤ n / d := hdown.trans hbelow.le
  have hover : (n : ℚ) / d < 10 ^ (estimate (n.log2 - d.log2) + 2) := habove.trans_le hup
  rw [decade_eq hd]
  unfold firstReached
  split
  · next hreach => exact ⟨hreach, by rwa [add_assoc]⟩
  · next hmiss =>
    rw [not_le] at hmiss
    split
    · next hreach => exact ⟨hreach, hmiss⟩
    · next hmiss => exact ⟨hunder, by rwa [sub_add_cancel, ← not_le]⟩

/-! ### Grids -/

/-- A cell `10^k` of a grid, and a unit `2^q` of an interval, as multiples of the same number. -/
def cell (q k : Int) : Nat := 10 ^ k.toNat * 2 ^ (-q).toNat

def unit (q k : Int) : Nat := 2 ^ q.toNat * 10 ^ (-k).toNat

theorem unit_pos (q k : Int) : 0 < unit q k :=
  Nat.mul_pos (Nat.pow_pos (by decide)) (Nat.pow_pos (by decide))

theorem cell_pos (q k : Int) : 0 < cell q k :=
  Nat.mul_pos (Nat.pow_pos (by decide)) (Nat.pow_pos (by decide))

theorem cell_eq (q k : Int) : (cell q k : ℚ) = 10 ^ k / 2 ^ q * unit q k := by
  rw [cell, unit, zpow_eq_div 10 k, zpow_eq_div 2 q]
  push_cast
  field_simp

/-- Multiples of a cell and of a unit are compared as the numbers that they are. -/
theorem mul_cell_le_iff (c m : Nat) (q k : Int) :
    c * cell q k ≤ m * unit q k ↔ (c : ℚ) * 10 ^ k ≤ m * 2 ^ q := by
  have hunit : (0 : ℚ) < unit q k := by exact_mod_cast unit_pos q k
  have hq : (0 : ℚ) < 2 ^ q := by positivity
  rw [← Nat.cast_le (α := ℚ), Nat.cast_mul, Nat.cast_mul, cell_eq, ← mul_assoc,
    mul_le_mul_iff_left₀ hunit, ← mul_div_assoc, div_le_iff₀ hq]

theorem mul_unit_le_iff (c m : Nat) (q k : Int) :
    m * unit q k ≤ c * cell q k ↔ (m : ℚ) * 2 ^ q ≤ c * 10 ^ k := by
  have hunit : (0 : ℚ) < unit q k := by exact_mod_cast unit_pos q k
  have hq : (0 : ℚ) < 2 ^ q := by positivity
  rw [← Nat.cast_le (α := ℚ), Nat.cast_mul, Nat.cast_mul, cell_eq, ← mul_assoc,
    mul_le_mul_iff_left₀ hunit, ← mul_div_assoc, le_div_iff₀ hq]

/-- Whether a point of the grid lies in the interval. -/
def Interval.admits (i : Interval) (q k : Int) (c : Nat) : Bool :=
  if i.closed then i.low * unit q k ≤ c * cell q k && c * cell q k ≤ i.high * unit q k
  else i.low * unit q k < c * cell q k && c * cell q k < i.high * unit q k

theorem Interval.admits_bounds (h : i.admits q k c = true) :
    (i.low : ℚ) * 2 ^ q ≤ c * 10 ^ k ∧ (c : ℚ) * 10 ^ k ≤ i.high * 2 ^ q := by
  rw [← mul_unit_le_iff, ← mul_cell_le_iff]
  unfold admits at h
  split at h <;> simp only [Bool.and_eq_true, decide_eq_true_eq] at h <;> omega

/-- The last point of the grid that is not above the value. -/
def lower (i : Interval) (q k : Int) : Nat := i.value * unit q k / cell q k

theorem onGrid_eq (tie : Tie) (i : Interval) (q k : Int) : onGrid tie i q k =
    match i.admits q k (lower i q k), i.admits q k (lower i q k + 1) with
    | false, false => none
    | true, false => some (lower i q k)
    | false, true => some (lower i q k + 1)
    | true, true =>
      match compare (i.value * unit q k - lower i q k * cell q k)
          ((lower i q k + 1) * cell q k - i.value * unit q k) with
      | .lt => some (lower i q k)
      | .eq => some (tie.choose (lower i q k))
      | .gt => some (lower i q k + 1) := rfl

/-- On a grid one of the two points next to the value is found, if either lies in the interval. -/
theorem onGrid_cases (tie : Tie) (i : Interval) (q k : Int) :
    (onGrid tie i q k = none ∧ i.admits q k (lower i q k + 1) = false) ∨
      ∃ c, onGrid tie i q k = some c ∧ (c = lower i q k ∨ c = lower i q k + 1) ∧
        i.admits q k c = true := by
  rw [onGrid_eq]
  cases hlower : i.admits q k (lower i q k) <;> cases hupper : i.admits q k (lower i q k + 1)
  · exact .inl ⟨rfl, rfl⟩
  · exact .inr ⟨_, rfl, .inr rfl, hupper⟩
  · exact .inr ⟨_, rfl, .inl rfl, hlower⟩
  · have hboth : ∀ c, c = lower i q k ∨ c = lower i q k + 1 → i.admits q k c = true := by
      rintro c (rfl | rfl)
      · exact hlower
      · exact hupper
    right
    dsimp only
    split
    · exact ⟨_, rfl, .inl rfl, hlower⟩
    · exact ⟨_, rfl, tie.choose_eq_or _, hboth _ (tie.choose_eq_or _)⟩
    · exact ⟨_, rfl, .inr rfl, hupper⟩

theorem onGrid_eq_some (h : onGrid tie i q k = some c) :
    c ≤ lower i q k + 1 ∧ i.admits q k c = true := by
  obtain ⟨hnone, -⟩ | ⟨c', hc', hnext, hadmits⟩ := onGrid_cases tie i q k
  · exact nomatch hnone.symm.trans h
  · cases hc'.symm.trans h
    exact ⟨by omega, hadmits⟩

/-- A grid that is finer than the upper half of the interval has a point in it. -/
theorem isSome_onGrid (hlow : i.low ≤ i.value) (hhigh : i.high = i.value + 2)
    (hcell : cell q k < 2 * unit q k) : (onGrid tie i q k).isSome = true := by
  have habove : i.value * unit q k < (lower i q k + 1) * cell q k := by
    rw [Nat.mul_comm (lower i q k + 1)]
    exact Nat.lt_mul_div_succ _ (cell_pos q k)
  have hbelow : lower i q k * cell q k ≤ i.value * unit q k := Nat.div_mul_le_self _ _
  have hleast : i.low * unit q k ≤ i.value * unit q k := Nat.mul_le_mul_right _ hlow
  have hgreatest : i.high * unit q k = i.value * unit q k + 2 * unit q k := by
    rw [hhigh, Nat.add_mul]
  have hupper : i.admits q k (lower i q k + 1) = true := by
    unfold Interval.admits
    rw [Nat.succ_mul] at habove ⊢
    split <;> simp only [Bool.and_eq_true, decide_eq_true_eq] <;> omega
  obtain ⟨-, hmiss⟩ | ⟨c, hc, -⟩ := onGrid_cases tie i q k
  · exact nomatch hmiss.symm.trans hupper
  · rw [hc]
    rfl

/-- The search ends on one of the grids that it may try, if the last of them has a point. -/
theorem searchGrids_spec : ∀ {fuel : Nat} {k : Int},
    (onGrid tie i q (k - fuel)).isSome = true →
      ∃ c k', searchGrids tie i q (fuel + 1) k = ⟨c, k'⟩ ∧ onGrid tie i q k' = some c ∧
        k - fuel ≤ k'
  | 0, k, h => by
    rw [Int.natCast_zero, Int.sub_zero] at h ⊢
    obtain ⟨c, hc⟩ := Option.isSome_iff_exists.1 h
    exact ⟨c, k, by rw [searchGrids, hc], hc, le_rfl⟩
  | fuel + 1, k, h => by
    rw [searchGrids]
    cases hgrid : onGrid tie i q k with
    | some c => exact ⟨c, k, rfl, hgrid, by omega⟩
    | none =>
      have hk : k - 1 - (fuel : Int) = k - ((fuel + 1 : Nat) : Int) := by omega
      rw [← hk] at h ⊢
      exact searchGrids_spec h

/-! ### Trailing zeros -/

theorem strip_spec : ∀ (fuel : Nat) (x : Decimal), (strip fuel x).value = x.value ∧
    (strip fuel x).coefficient ≤ x.coefficient ∧
      (0 < x.coefficient → 0 < (strip fuel x).coefficient)
  | 0, x => ⟨rfl, le_rfl, id⟩
  | fuel + 1, x => by
    rw [strip]
    split
    · next h =>
      obtain ⟨hvalue, hle, hpos⟩ := strip_spec fuel ⟨x.coefficient / 10, x.exponent + 1⟩
      have hten : x.coefficient = x.coefficient / 10 * 10 := by omega
      refine ⟨hvalue.trans ?_, hle.trans (Nat.div_le_self _ _), fun _ => hpos ?_⟩
      · rw [value, value, zpow_add_one₀ (by norm_num)]
        conv_rhs => rw [hten]
        push_cast
        ring
      · show 0 < x.coefficient / 10
        omega
    · exact ⟨rfl, le_rfl, id⟩

/-! ### The shortest decimal -/

/-- The grid seventeen places below the decade is fine enough. -/
theorem cell_lt_unit {top : Int} (hhi : x.significand < 2 ^ 53)
    (htop : (10 : ℚ) ^ top ≤ (interval x).value * 2 ^ (x.exponent - 2)) :
    cell (x.exponent - 2) (top - 17) < 2 * unit (x.exponent - 2) (top - 17) := by
  have hvalue : ((interval x).value : ℚ) ≤ 2 ^ 55 := by
    have h : 4 * x.significand ≤ 2 ^ 55 := by omega
    exact_mod_cast h
  have hunit : (0 : ℚ) < 2 ^ (x.exponent - 2) := by positivity
  have hplaces : (10 : ℚ) ^ top = 10 ^ (top - 17) * 10 ^ 17 := by
    rw [← zpow_natCast, ← zpow_add₀ (by norm_num)]
    exact congrArg _ (by norm_num)
  by_contra hcoarse
  rw [not_lt, ← Nat.one_mul (cell _ _), mul_unit_le_iff, Nat.cast_one, one_mul] at hcoarse
  push_cast at hcoarse
  have hbig : (2 : ℚ) * 2 ^ (x.exponent - 2) * 10 ^ 17 ≤ 2 ^ 55 * 2 ^ (x.exponent - 2) :=
    calc (2 : ℚ) * 2 ^ (x.exponent - 2) * 10 ^ 17
        ≤ 10 ^ (top - 17) * 10 ^ 17 := mul_le_mul_of_nonneg_right hcoarse (by norm_num)
      _ = 10 ^ top := hplaces.symm
      _ ≤ (interval x).value * 2 ^ (x.exponent - 2) := htop
      _ ≤ 2 ^ 55 * 2 ^ (x.exponent - 2) := mul_le_mul_of_nonneg_right hvalue hunit.le
  linarith

section
variable (tie : Tie) (hm : 0 < x.significand) (hhi : x.significand < 2 ^ 53)
  (hlo : -1074 ≤ x.exponent) (hexp : x.exponent ≤ 971)
include hm

theorem interval_bounds : 0 < (interval x).low ∧ (interval x).low ≤ (interval x).value ∧
    (interval x).high = (interval x).value + 2 := by
  unfold interval
  dsimp only
  refine ⟨?_, ?_, rfl⟩ <;> split <;> omega

include hhi hlo hexp

/-- The decade of a double, as the number that it is. -/
theorem decade_interval :
    let top := decade ((interval x).value * Nat.pow 2 (x.exponent - 2).toNat)
      (Nat.pow 2 (-(x.exponent - 2)).toNat)
    (10 : ℚ) ^ top ≤ (interval x).value * 2 ^ (x.exponent - 2) ∧
      ((interval x).value : ℚ) * 2 ^ (x.exponent - 2) < 10 ^ (top + 1) := by
  intro top
  have hvalue : 0 < (interval x).value := Nat.mul_pos (by decide) hm
  have hn : 0 < (interval x).value * Nat.pow 2 (x.exponent - 2).toNat :=
    Nat.mul_pos hvalue (Nat.pow_pos (by decide))
  have hlog : (interval x).value.log2 < 55 := by
    refine (Nat.log2_lt (Nat.ne_of_gt hvalue)).2 ?_
    show 4 * x.significand < 2 ^ 55
    omega
  have hnum : ((interval x).value * Nat.pow 2 (x.exponent - 2).toNat).log2 =
      (interval x).value.log2 + (x.exponent - 2).toNat := log2_mul_two_pow hvalue _
  have hden : (Nat.pow 2 (-(x.exponent - 2)).toNat).log2 = (-(x.exponent - 2)).toNat :=
    Nat.log2_two_pow
  have hquotient : (((interval x).value * Nat.pow 2 (x.exponent - 2).toNat : Nat) : ℚ) /
      (Nat.pow 2 (-(x.exponent - 2)).toNat : Nat) = (interval x).value * 2 ^ (x.exponent - 2) := by
    simp only [Nat.pow_eq]
    rw [zpow_eq_div, ← mul_div_assoc]
    push_cast
    rfl
  rw [← hquotient]
  exact decade_spec hn (Nat.pow_pos (by decide)) (by omega) (by omega)

/-- The shortest decimal has at most nineteen digits and lies in the interval of its double. -/
theorem shortest_spec :
    0 < (shortest tie x).coefficient ∧ (shortest tie x).coefficient ≤ 10 ^ 18 ∧
      ((interval x).low : ℚ) * 2 ^ (x.exponent - 2) ≤ (shortest tie x).value ∧
        (shortest tie x).value ≤ (interval x).high * 2 ^ (x.exponent - 2) := by
  obtain ⟨hlow, hvalue, hhigh⟩ := interval_bounds hm
  obtain ⟨hreached, hover⟩ := decade_interval hm hhi hlo hexp
  set top := decade ((interval x).value * Nat.pow 2 (x.exponent - 2).toNat)
    (Nat.pow 2 (-(x.exponent - 2)).toNat) with htop
  have hpoint : (onGrid tie (interval x) (x.exponent - 2) (top - (17 : Nat))).isSome = true :=
    isSome_onGrid hvalue hhigh (cell_lt_unit hhi hreached)
  obtain ⟨c, k, hsearch, hgrid, hk⟩ := searchGrids_spec hpoint
  obtain ⟨hnext, hadmits⟩ := onGrid_eq_some hgrid
  obtain ⟨hge, hle⟩ := (interval x).admits_bounds hadmits
  have hshortest : shortest tie x = strip 17 ⟨c, k⟩ := by
    rw [shortest, if_neg (Nat.ne_of_gt hm), ← hsearch]
  have hcpos : 0 < c := by
    refine Nat.pos_of_ne_zero fun hzero => ?_
    have hlow' : (0 : ℚ) < (interval x).low := by exact_mod_cast hlow
    rw [hzero, Nat.cast_zero, zero_mul] at hge
    exact absurd hge (not_le.2 (mul_pos hlow' (by positivity)))
  -- the grid lies at most seventeen places below the decade, and that bounds the number of cells
  have hcle : c ≤ 10 ^ 18 := by
    have hbelow : ((lower (interval x) (x.exponent - 2) k : Nat) : ℚ) * 10 ^ k ≤
        (interval x).value * 2 ^ (x.exponent - 2) :=
      (mul_cell_le_iff _ _ _ _).1 (Nat.div_mul_le_self _ _)
    have hdecades : (10 : ℚ) ^ (top + 1) ≤ 10 ^ 18 * 10 ^ k := by
      rw [← zpow_natCast, ← zpow_add₀ (by norm_num)]
      exact zpow_le_zpow_right₀ (by norm_num) (by omega)
    have hlt : ((lower (interval x) (x.exponent - 2) k : Nat) : ℚ) < 10 ^ 18 :=
      lt_of_mul_lt_mul_right ((hbelow.trans_lt hover).trans_le hdecades) (by positivity)
    have hlt' : lower (interval x) (x.exponent - 2) k < 10 ^ 18 := by exact_mod_cast hlt
    omega
  obtain ⟨hsame, hsmaller, hpositive⟩ := strip_spec 17 ⟨c, k⟩
  rw [hshortest, hsame]
  exact ⟨hpositive hcpos, hsmaller.trans hcle, hge, hle⟩

end

end Decimal

end Reckoner

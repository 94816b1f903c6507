import Reckoner.Decimal.Read
import Reckoner.Proofs.Double.Nearest

/-!
# Decimals are read as the nearest double

A coefficient and an exponent of ten give the double that is nearest to the number that they are, also
where the power of ten is too far out to be computed (`toDouble_spec`).
-/

namespace Reckoner.Decimal

open Double hiding mul_one

theorem overflow_le_ten_pow : overflow ≤ 10 ^ 309 := by decide +kernel

/-- A coefficient below `2^(log + 1)`, times a power of `1/8` at most. -/
theorem far_lt {c k : Nat} (h : c.log2 + 1076 ≤ 3 * k) :
    (c : ℚ) / (10 ^ k : Nat) < 2 ^ (-1075 : Int) := by
  have hlog : (c : ℚ) < 2 ^ (c.log2 + 1) := by exact_mod_cast Nat.lt_log2_self
  have height : (2 : ℚ) ^ (3 * k) ≤ 10 ^ k := by
    rw [pow_mul]
    exact pow_le_pow_left₀ (by norm_num) (by norm_num) k
  have hexponent : ((c.log2 + 1 : Nat) : Int) = -1075 + (c.log2 + 1076 : Nat) := by omega
  rw [Nat.cast_pow, Nat.cast_ofNat, div_lt_iff₀ (by positivity)]
  calc (c : ℚ) < 2 ^ (c.log2 + 1) := hlog
    _ = 2 ^ (-1075 : Int) * 2 ^ (c.log2 + 1076) := by
      rw [← zpow_natCast, hexponent, zpow_add₀ (by norm_num), zpow_natCast]
    _ ≤ 2 ^ (-1075 : Int) * 10 ^ k := by
      refine mul_le_mul_of_nonneg_left ?_ (by positivity)
      exact (pow_le_pow_right₀ (by norm_num) h).trans height

section
variable {c : Nat} {e : Int}

theorem toDouble_of_nonneg (hc : c ≠ 0) (he : 0 ≤ e) (hnear : e < 309) :
    toDouble false c e = nearest false (c * 10 ^ e.toNat) 1 := by
  rw [toDouble, if_neg hc, if_pos he, if_neg (not_le.2 hnear)]
  rfl

theorem toDouble_of_far (hc : c ≠ 0) (he : 309 ≤ e) : toDouble false c e = infinity false := by
  rw [toDouble, if_neg hc, if_pos (by omega), if_pos he]

theorem toDouble_of_neg (he : e < 0) :
    toDouble false c e = nearest false c (10 ^ (-e).toNat) := by
  have hpos : 0 < 10 ^ (-e).toNat := Nat.pow_pos (by decide)
  unfold toDouble
  split
  · next hc =>
    rw [hc]
    refine (nearest_eq_zero 0 hpos ?_).symm
    rw [Nat.cast_zero, zero_div]
    positivity
  · rw [if_neg (not_le.2 he)]
    split
    · next hfar => exact (nearest_eq_zero c hpos (far_lt hfar)).symm
    · rfl

theorem mul_ten_zpow_of_neg (he : e < 0) :
    (c : ℚ) * 10 ^ e = c / (10 ^ (-e).toNat : Nat) := by
  have hexponent : e = -((-e).toNat : Int) := by omega
  conv_lhs => rw [hexponent]
  rw [zpow_neg, zpow_natCast, Nat.cast_pow, Nat.cast_ofNat, div_eq_mul_inv]

/-- Less than half of the least double is read as zero. -/
theorem toDouble_eq_zero (h : (c : ℚ) * 10 ^ e < 2 ^ (-1075 : Int)) :
    toDouble false c e = nearest false 0 1 := by
  by_cases hc : c = 0
  · rw [toDouble, if_pos hc]
  · have he : e < 0 := by
      by_contra hpos
      have hone : (1 : ℚ) ≤ c * 10 ^ e := one_le_mul_of_one_le_of_one_le
        (by exact_mod_cast Nat.one_le_iff_ne_zero.2 hc) (one_le_zpow₀ (by norm_num) (by omega))
      have hsmall : (2 : ℚ) ^ (-1075 : Int) ≤ 1 := zpow_le_one_of_nonpos₀ (by norm_num) (by decide)
      exact absurd (hone.trans_lt h) (not_lt.2 hsmall)
    rw [mul_ten_zpow_of_neg he] at h
    rw [toDouble_of_neg he]
    exact nearest_eq_zero c (Nat.pow_pos (by decide)) h

end

theorem toDouble_spec (c : Nat) (e : Int) : Nearest (c * 10 ^ e) (toDouble false c e) := by
  rcases lt_or_ge e 0 with hneg | hpos
  · rw [toDouble_of_neg hneg, mul_ten_zpow_of_neg hneg]
    exact nearest_spec c (Nat.pow_pos (by decide))
  · by_cases hc : c = 0
    · rw [toDouble, if_pos hc, hc, Nat.cast_zero, zero_mul, ← Nat.cast_zero]
      exact ofNat_spec 0
    · rcases lt_or_ge e 309 with hnear | hfar
      · have hpower : (c : ℚ) * 10 ^ e = (c * 10 ^ e.toNat : Nat) := by
          rw [zpow_eq_div, show (-e).toNat = 0 by omega, pow_zero, div_one]
          push_cast
          rfl
        rw [toDouble_of_nonneg hc hpos hnear, hpower]
        exact ofNat_spec _
      · have hinfinite : read (infinity false) = .infinite false := by decide +kernel
        rw [toDouble_of_far hc hfar, Nearest, hinfinite]
        refine ⟨rfl, ?_⟩
        calc (overflow : ℚ) ≤ (10 ^ 309 : Nat) := Nat.cast_le.2 overflow_le_ten_pow
          _ = 10 ^ ((309 : Nat) : Int) := by rw [zpow_natCast, Nat.cast_pow, Nat.cast_ofNat]
          _ ≤ 10 ^ e := zpow_le_zpow_right₀ (by norm_num) hfar
          _ ≤ c * 10 ^ e := le_mul_of_one_le_left (by positivity)
            (by exact_mod_cast Nat.one_le_iff_ne_zero.2 hc)

end Reckoner.Decimal

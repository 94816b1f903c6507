import Reckoner.Double.Nearest
import Reckoner.Proofs.Double

/-!
# Products that do not overflow

A product of doubles is infinite only if the exact product reaches the number halfway between the
greatest double and the next power of two: below it the significand is rounded to at most `2^53 - 1`
where the exponent is the greatest (`rounded_le`).
-/

namespace Reckoner.Double
open Float.Model Float.Model.UnpackedFloat

/-- What rounds to an infinity: half a unit above the greatest double. -/
def overflow : Nat := (2 ^ 54 - 1) * 2 ^ 970

/-! ### Rounding a significand -/

/-- Shifting takes the quotient; the round bit says that at least a half was cut off. -/
theorem repeat_shiftRightOne_spec (m : Nat) : ∀ n : Nat,
    let em := n.repeat ExtendedMantissa.shiftRightOne ⟨m, false, false⟩
    em.mantissa = m / 2 ^ n ∧ (em.roundBit = true → (2 * em.mantissa + 1) * 2 ^ n ≤ 2 * m)
  | 0 => ⟨by rw [Nat.pow_zero, Nat.div_one]; rfl, nofun⟩
  | n + 1 => by
    obtain ⟨hmantissa, -⟩ := repeat_shiftRightOne_spec m n
    intro em
    have hnext : em.mantissa = m / 2 ^ n / 2 := congrArg (· / 2) hmantissa
    refine ⟨by rw [hnext, Nat.div_div_eq_div_mul, Nat.pow_succ], fun hround => ?_⟩
    have hodd : (m / 2 ^ n % 2 != 0) = true := by rw [← hmantissa]; exact hround
    have hquotient : 2 * em.mantissa + 1 = m / 2 ^ n := by
      rw [bne_iff_ne] at hodd
      omega
    have hbelow : m / 2 ^ n * 2 ^ n ≤ m := Nat.div_mul_le_self m (2 ^ n)
    rw [hquotient, Nat.pow_succ, ← Nat.mul_assoc]
    omega

theorem roundedMantissa_le : ∀ em : ExtendedMantissa, em.roundedMantissa ≤ em.mantissa ∨
    em.roundBit = true ∧ em.roundedMantissa ≤ em.mantissa + 1
  | ⟨_, false, false⟩ => .inl le_rfl
  | ⟨_, false, true⟩ => .inl le_rfl
  | ⟨m, true, false⟩ =>
    .inr ⟨rfl, Nat.add_le_add_left (Nat.le_of_lt_succ (Nat.mod_lt m (by decide))) m⟩
  | ⟨_, true, true⟩ => .inr ⟨rfl, le_rfl⟩

theorem rounded_le {m n bound : Nat} (h : 2 * m < (2 * bound + 1) * 2 ^ n) :
    (n.repeat ExtendedMantissa.shiftRightOne ⟨m, false, false⟩).roundedMantissa ≤ bound := by
  obtain ⟨hmantissa, hround⟩ := repeat_shiftRightOne_spec m n
  generalize n.repeat ExtendedMantissa.shiftRightOne ⟨m, false, false⟩ = em at hmantissa hround ⊢
  rcases roundedMantissa_le em with hle | ⟨hbit, hle⟩
  · have hbelow : em.mantissa * 2 ^ n ≤ m := hmantissa ▸ Nat.div_mul_le_self m (2 ^ n)
    have hlt : 2 * em.mantissa * 2 ^ n < (2 * bound + 1) * 2 ^ n := by
      rw [Nat.mul_assoc]
      omega
    have := Nat.lt_of_mul_lt_mul_right hlt
    omega
  · have := Nat.lt_of_mul_lt_mul_right ((hround hbit).trans_lt h)
    omega

/-! ### The exponent of a product -/

theorem log2_le_of_lt {m n : Nat} (h : m < 2 ^ (n + 1)) : m.log2 ≤ n := by
  by_cases hm : m = 0
  · rw [hm]
    exact Nat.zero_le n
  · exact Nat.le_of_lt_succ ((Nat.log2_lt hm).2 h)

/-- Shifting never lowers an exponent. -/
theorem shiftToTargetExponent_snd (m : Nat) (e : Int) (accuracy : Accuracy) :
    (shiftToTargetExponent .binary64 m e accuracy).2 =
      max e (Format.binary64.targetExponent (totalExponent m e)) := by
  show e + ((Format.binary64.targetExponent (totalExponent m e) - e).toNat : Int) = _
  omega

section
variable {m : Nat} {e : Int} (h : (m : ℚ) * 2 ^ e < overflow)
include h

theorem totalExponent_le (hm : 0 < m) : totalExponent m e ≤ 1024 := by
  have hlog : (2 : ℚ) ^ m.log2 ≤ m := by exact_mod_cast Nat.log2_self_le (Nat.ne_of_gt hm)
  have hover : (overflow : ℚ) ≤ 2 ^ 1024 := by
    have : overflow ≤ 2 ^ 1024 := by decide +kernel
    exact_mod_cast this
  have hlow : (2 : ℚ) ^ ((m.log2 : Int) + e) < 2 ^ ((1024 : Nat) : Int) := by
    calc (2 : ℚ) ^ ((m.log2 : Int) + e) = 2 ^ m.log2 * 2 ^ e := by
          rw [zpow_add₀ (by norm_num), zpow_natCast]
      _ ≤ m * 2 ^ e := mul_le_mul_of_nonneg_right hlog (by positivity)
      _ < overflow := h
      _ ≤ 2 ^ 1024 := hover
      _ = 2 ^ ((1024 : Nat) : Int) := (zpow_natCast _ _).symm
  have hlt := (zpow_lt_zpow_iff_right₀ (by norm_num : (1 : ℚ) < 2)).1 hlow
  rw [totalExponent]
  omega

/-- With the greatest exponent a significand below the overflow is not rounded up to 54 bits. -/
theorem two_mul_lt (bound : Nat) {n greatest : Nat} (hn : e + n = greatest)
    (hover : 2 * overflow = (2 * bound + 1) * 2 ^ greatest) : 2 * m < (2 * bound + 1) * 2 ^ n := by
  have he : (2 : ℚ) ^ greatest = 2 ^ n * 2 ^ e := by
    rw [← zpow_natCast, ← hn, zpow_add₀ (by norm_num), zpow_natCast, mul_comm]
  have hdouble : (2 * overflow : ℚ) = (2 * bound + 1 : Nat) * 2 ^ greatest := by
    exact_mod_cast hover
  have hmul : (2 * m : ℚ) * 2 ^ e < (2 * bound + 1 : Nat) * 2 ^ n * 2 ^ e :=
    calc (2 * m : ℚ) * 2 ^ e = 2 * (m * 2 ^ e) := by ring
      _ < 2 * overflow := by linarith
      _ = (2 * bound + 1 : Nat) * 2 ^ n * 2 ^ e := by rw [hdouble, he, mul_assoc]
  have hlt := lt_of_mul_lt_mul_right hmul (by positivity)
  exact_mod_cast hlt

/-- The significand that rounding gives is brought to 53 bits without passing the greatest
exponent. -/
theorem shift_exponent_le (hm : 2 ^ 52 ≤ m) :
    let first := shiftToTargetExponent .binary64 m e .exact
    (shiftToTargetExponent .binary64 first.1.roundedMantissa first.2 .exact).2 ≤ 971 := by
  have hpos : 0 < m := by omega
  have htotal := totalExponent_le h hpos
  have hlog : 52 ≤ m.log2 := (Nat.le_log2 (Nat.ne_of_gt hpos)).2 hm
  obtain ⟨n, hn⟩ : ∃ n : Nat, e + n = Format.binary64.targetExponent (totalExponent m e) := by
    refine Int.le.dest ?_
    rw [targetExponent_eq, totalExponent]
    omega
  have hamount : (Format.binary64.targetExponent (totalExponent m e) - e).toNat = n := by omega
  have hfirst : shiftToTargetExponent .binary64 m e .exact =
      (n.repeat ExtendedMantissa.shiftRightOne ⟨m, false, false⟩, e + n) := by
    rw [shiftToTargetExponent, shiftToExponent, hamount]
    rfl
  rw [targetExponent_eq] at hn
  rw [hfirst]
  dsimp only
  rw [shiftToTargetExponent_snd, targetExponent_eq, totalExponent]
  by_cases hgreatest : e + n = 971
  · have hrounded := rounded_le (two_mul_lt h (2 ^ 53 - 1) hgreatest (by decide +kernel))
    have := log2_le_of_lt (n := 52) (Nat.lt_of_le_of_lt hrounded (by decide))
    omega
  · have hwide : 2 * m < (2 * 2 ^ 53 + 1) * 2 ^ n := by
      have hbits : m < 2 ^ (53 + n) := Nat.lt_log2_self.trans_le
        (Nat.pow_le_pow_right (by decide) (by rw [totalExponent] at hn; omega))
      rw [Nat.pow_add] at hbits
      rw [Nat.add_mul, Nat.mul_assoc]
      omega
    have := log2_le_of_lt (n := 53) (Nat.lt_of_le_of_lt (rounded_le hwide) (by decide))
    omega

end

/-! ### Infinite products -/

theorem isInf_unpack {b : BitVec Format.binary64.numBits} (h : unpackExponent b ≠ -1#11) :
    (UnpackedFloat.unpack .binary64 b).isInf = false := by
  unfold UnpackedFloat.unpack
  dsimp only
  rw [if_neg h]
  split
  · split <;> rfl
  · rfl

theorem unpackExponent_pack_finite (s : Sign) {m : Nat} {e : Int} (hm : 0 < m) (he : e ≤ 971) :
    unpackExponent (UnpackedFloat.pack .binary64 (.finite s m e hm)) ≠ -1#11 := by
  have hbiased : (e + Format.binary64.exponentBias + (52 : Nat)).toNat < 2047 := by
    show (e + 1023 + 52).toNat < 2047
    omega
  have hfits : ¬ 2 ^ 11 ≤ (e + Format.binary64.exponentBias + (52 : Nat)).toNat + 1 := by omega
  unfold UnpackedFloat.pack
  dsimp only
  rw [if_neg hfits]
  split
  · rw [unpackExponent_packComponents]
    intro heq
    have hnat := congrArg BitVec.toNat heq
    rw [BitVec.toNat_ofNat, Nat.mod_eq_of_lt (by omega)] at hnat
    exact absurd hnat (Nat.ne_of_lt hbiased)
  · rw [unpackExponent_packComponents]
    decide

theorem isInf_mul {x y : Float} {s t : Sign} {m n : Nat} {e f : Int} {hm : 0 < m} {hn : 0 < n}
    (hx : x.toModel.unpack = .finite s m e hm) (hy : y.toModel.unpack = .finite t n f hn)
    (hwide : 2 ^ 52 ≤ m * n) (h : ((m * n : Nat) : ℚ) * 2 ^ (e + f) < overflow) :
    (x * y).isInf = false := by
  show (x.toModel.mul y.toModel).isInf = false
  rw [Float.Model.mul, hx, hy, UnpackedFloat.mul]
  have hexponent := shift_exponent_le h hwide
  unfold roundWithAccuracy
  dsimp only
  split
  · cases s * t <;> decide +kernel
  · next hne => exact isInf_unpack (unpackExponent_pack_finite _ (Nat.pos_of_ne_zero hne) hexponent)

end Reckoner.Double

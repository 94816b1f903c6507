import Reckoner.Proofs.Double.Product

/-!
# Hundredths of finite doubles are finite

Rounding may cut off anything, of a quotient too, and still adds at most one binary digit
(`log2_roundedMantissa_le`). So what is well below the greatest double is not rounded to an infinity
(`isFinite_round`), and a hundredth of a finite double is (`isFinite_div_hundred`).
-/

namespace Reckoner.Double
open Float.Model Float.Model.UnpackedFloat

/-! ### Rounding with a rest -/

section
variable {m n : Nat} (accuracy : Accuracy)

theorem mantissa_repeat (em : ExtendedMantissa) : ∀ n : Nat,
    (n.repeat ExtendedMantissa.shiftRightOne em).mantissa = em.mantissa / 2 ^ n
  | 0 => by rw [Nat.pow_zero, Nat.div_one]; rfl
  | n + 1 => by
    rw [Nat.pow_succ, ← Nat.div_div_eq_div_mul, ← mantissa_repeat em n]
    rfl

theorem mantissa_shifted :
    (ExtendedMantissa.ofMantissaAndAccuracy m accuracy >>> n).mantissa = m / 2 ^ n := by
  have hmantissa : (ExtendedMantissa.ofMantissaAndAccuracy m accuracy).mantissa = m := by
    rcases accuracy with _ | _ | _ | _ <;> rfl
  have h := mantissa_repeat (ExtendedMantissa.ofMantissaAndAccuracy m accuracy) n
  rwa [hmantissa] at h

theorem log2_roundedMantissa_le (hn : n ≤ m.log2) :
    (ExtendedMantissa.ofMantissaAndAccuracy m accuracy >>> n).roundedMantissa.log2 ≤
      m.log2 + 1 - n := by
  have hrounded := roundedMantissa_le (ExtendedMantissa.ofMantissaAndAccuracy m accuracy >>> n)
  have hquotient : m / 2 ^ n < 2 ^ (m.log2 + 1 - n) := by
    rw [Nat.div_lt_iff_lt_mul (Nat.two_pow_pos n), ← Nat.pow_add,
      Nat.sub_add_cancel (Nat.le_succ_of_le hn)]
    exact Nat.lt_log2_self
  have hpos := Nat.two_pow_pos (m.log2 + 1 - n)
  rw [mantissa_shifted] at hrounded
  refine log2_le_of_lt ?_
  rw [Nat.pow_succ]
  omega

theorem log2_roundedMantissa_eq_zero (hn : m.log2 < n) :
    (ExtendedMantissa.ofMantissaAndAccuracy m accuracy >>> n).roundedMantissa.log2 = 0 := by
  have hrounded := roundedMantissa_le (ExtendedMantissa.ofMantissaAndAccuracy m accuracy >>> n)
  have hquotient : m / 2 ^ n = 0 :=
    Nat.div_eq_of_lt (Nat.lt_log2_self.trans_le (Nat.pow_le_pow_right (by decide) hn))
  rw [mantissa_shifted] at hrounded
  exact Nat.le_zero.1 (log2_le_of_lt (by omega))

/-- The significand that rounding gives may need one more digit, and so one more for the exponent. -/
theorem rounded_exponent_le {e : Int} (he : e ≤ 971) (htotal : totalExponent m e ≤ 1023) :
    let first := shiftToTargetExponent .binary64 m e accuracy
    (shiftToTargetExponent .binary64 first.1.roundedMantissa first.2 .exact).2 ≤ 971 := by
  obtain ⟨n, hn⟩ : ∃ n, n = (Format.binary64.targetExponent (totalExponent m e) - e).toNat := ⟨_, rfl⟩
  have hfirst : shiftToTargetExponent .binary64 m e accuracy =
      (ExtendedMantissa.ofMantissaAndAccuracy m accuracy >>> n, e + n) := by
    rw [shiftToTargetExponent, shiftToExponent, hn]
  rw [targetExponent_eq, totalExponent] at hn
  rw [totalExponent] at htotal
  rw [hfirst]
  dsimp only
  rw [shiftToTargetExponent_snd, targetExponent_eq, totalExponent]
  rcases Nat.lt_or_ge m.log2 n with hlt | hge
  · rw [log2_roundedMantissa_eq_zero accuracy hlt]
    omega
  · have := log2_roundedMantissa_le accuracy hge
    omega

end

/-! ### Finite results -/

section
variable {b : BitVec Format.binary64.numBits}

theorem isFinite_unpack (h : unpackExponent b ≠ -1#11) :
    (UnpackedFloat.unpack .binary64 b).isFinite = true := by
  unfold UnpackedFloat.unpack
  dsimp only
  rw [if_neg h]
  split
  · split <;> rfl
  · rfl

theorem exponent_le_of_unpack {s : Sign} {m : Nat} {e : Int} {hm : 0 < m}
    (h : UnpackedFloat.unpack .binary64 b = .finite s m e hm) : e ≤ 971 := by
  unfold UnpackedFloat.unpack at h
  dsimp only at h
  split at h
  · split at h <;> cases h
  · next hmax =>
    have hlt : (unpackExponent b).toNat < 2048 := exponent_lt b
    have hne : (unpackExponent b).toNat ≠ 2047 := fun h => hmax (BitVec.eq_of_toNat_eq h)
    have hbias : ((Format.binary64.exponentBias : Int) + (52 : Nat)) = 1075 := rfl
    split at h
    · next hexp =>
      split at h
      · cases h
      · injection h with _ _ he
        rw [← he, hexp]
        decide
    · injection h with _ _ he
      omega

end

theorem isFinite_round (s : Sign) {m : Nat} {e : Int} (accuracy : Accuracy) (he : e ≤ 971)
    (htotal : totalExponent m e ≤ 1023) :
    (Float.Model.pack (roundWithAccuracy .binary64 s m e accuracy)).isFinite = true := by
  have hexponent := rounded_exponent_le accuracy he htotal
  unfold roundWithAccuracy
  dsimp only
  split
  · cases s <;> decide +kernel
  · next hne =>
    exact isFinite_unpack (unpackExponent_pack_finite s (Nat.pos_of_ne_zero hne) hexponent)

theorem unpack_hundred :
    (100 : Float).toModel.unpack = .finite .positive (100 * 2 ^ 46) (-46) (by decide) := by rfl

/-- The quotient of the significands has 52 digits less than the shifted significand. -/
theorem log2_hundredth_le (m n : Nat) : (m <<< n / (100 * 2 ^ 46)).log2 ≤ m.log2 + n - 52 := by
  refine log2_le_of_lt ?_
  rw [Nat.div_lt_iff_lt_mul (by decide), Nat.shiftLeft_eq]
  calc m * 2 ^ n < 2 ^ (m.log2 + 1) * 2 ^ n :=
        Nat.mul_lt_mul_of_pos_right Nat.lt_log2_self (Nat.two_pow_pos n)
    _ = 2 ^ (m.log2 + 1 + n) := (Nat.pow_add ..).symm
    _ ≤ 2 ^ (m.log2 + n - 52 + 1 + 52) := Nat.pow_le_pow_right (by decide) (by omega)
    _ = 2 ^ (m.log2 + n - 52 + 1) * 2 ^ 52 := Nat.pow_add ..
    _ ≤ 2 ^ (m.log2 + n - 52 + 1) * (100 * 2 ^ 46) := Nat.mul_le_mul_left _ (by decide)

theorem isFinite_div_hundred {x : Float} (h : x.isFinite = true) : (x / 100).isFinite = true := by
  change x.toModel.unpack.isFinite = true at h
  show (Float.Model.pack
    (UnpackedFloat.div .binary64 x.toModel.unpack (100 : Float).toModel.unpack)).isFinite = true
  rw [unpack_hundred]
  cases hx : x.toModel.unpack with
  | notANumber | infinity s =>
    rw [hx] at h
    cases h
  | zero s => cases s <;> decide +kernel
  | finite s m e hm =>
    have he := exponent_le_of_unpack (b := x.toBits.toBitVec) hx
    have haims : Aims m e := aims_unpack x.toBits.toBitVec hx
    have htotal : totalExponent (100 * 2 ^ 46) (-46) = 7 := by rfl
    rw [Aims, targetExponent_eq, totalExponent] at haims
    rw [UnpackedFloat.div, divCore, htotal, targetExponent_eq, totalExponent]
    dsimp only
    generalize ht : min (e - -46) (max ((m.log2 : Int) + 1 + e - 7 - 53) (-1074)) = t
    generalize hn : (e - -46 - t).toNat = n
    have hquotient := log2_hundredth_le m n
    refine isFinite_round _ _ (by omega) ?_
    rw [totalExponent]
    omega

end Reckoner.Double

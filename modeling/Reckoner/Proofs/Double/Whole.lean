import Reckoner.Proofs.Double.Product

/-!
# Whole numbers as doubles

The double nearest to a positive whole number has the significand that rounding gives, at the
exponent that brings it to 53 bits (`unpack_ofNat`). Rounding does not change the order of numbers
(`wholeSignificand_mono`), so that a bound on a product of two such doubles needs to be checked at
the greatest factors only (`isInf_ofNat_mul`).
-/

namespace Reckoner.Double
open Float.Model Float.Model.UnpackedFloat

/-! ### Doubles with these bits -/

section
variable (b : BitVec Format.binary64.numBits)

/-- The bits of a positive double that is neither subnormal nor infinite. -/
theorem unpack_normal (hlo : 2 ^ 52 ≤ b.toNat) (hhi : b.toNat < 2047 * 2 ^ 52) :
    ∃ hm, UnpackedFloat.unpack .binary64 b = .finite .positive (2 ^ 52 + b.toNat % 2 ^ 52)
      ((b.toNat / 2 ^ 52 : Nat) - (1075 : Int)) hm := by
  have hexponent : (unpackExponent b).toNat = b.toNat / 2 ^ 52 := by
    rw [toNat_unpackExponent]
    omega
  have hsign : unpackSign b = 0#1 := by
    refine BitVec.eq_of_toNat_eq ?_
    rw [toNat_unpackSign]
    show _ = 0
    omega
  have hfinite : unpackExponent b ≠ -1#11 := fun h => by
    have htop : b.toNat / 2 ^ 52 = 2047 := hexponent.symm.trans (congrArg BitVec.toNat h)
    omega
  have hnormal : unpackExponent b ≠ 0#11 := fun h => by
    have hzero : b.toNat / 2 ^ 52 = 0 := hexponent.symm.trans (congrArg BitVec.toNat h)
    omega
  refine ⟨by omega, ?_⟩
  unfold UnpackedFloat.unpack
  dsimp only
  rw [if_neg hfinite, if_neg hnormal]
  congr 1
  · rw [hsign]
    rfl
  · rw [toNat_implicit, toNat_unpackMantissa]
  · rw [hexponent]
    rfl

theorem valid_of_finite (h : unpackExponent b ≠ -1#11) : Format.binary64.Valid b :=
  ⟨fun hexponent => absurd hexponent h⟩

end

/-- The bits of a finite double that is not negative, as a word. -/
theorem valid_ofNat {bits : Nat} (h : bits < 2047 * 2 ^ 52) :
    (UInt64.ofNat bits).toBitVec.toNat = bits ∧ Format.binary64.Valid (UInt64.ofNat bits).toBitVec := by
  have htoNat : (UInt64.ofNat bits).toBitVec.toNat = bits := Nat.mod_eq_of_lt (by omega)
  refine ⟨htoNat, valid_of_finite _ fun h => ?_⟩
  have htop := congrArg BitVec.toNat h
  rw [toNat_unpackExponent, htoNat] at htop
  change bits / 2 ^ 52 % 2 ^ 11 = 2047 at htop
  omega

theorem unpack_ofBits {bits : Nat} (hlo : 2 ^ 52 ≤ bits) (hhi : bits < 2047 * 2 ^ 52) :
    ∃ hm, (Float.ofBits (UInt64.ofNat bits)).toModel.unpack =
      .finite .positive (2 ^ 52 + bits % 2 ^ 52) ((bits / 2 ^ 52 : Nat) - (1075 : Int)) hm := by
  obtain ⟨htoNat, hvalid⟩ := valid_ofNat hhi
  have hsame : (Float.ofBits (UInt64.ofNat bits)).toModel.unpack =
      UnpackedFloat.unpack .binary64 (UInt64.ofNat bits).toBitVec :=
    congrArg (UnpackedFloat.unpack .binary64) (pack_unpack_bits _ hvalid)
  rw [hsame]
  have hnormal := unpack_normal (UInt64.ofNat bits).toBitVec
  rw [htoNat] at hnormal
  exact hnormal hlo hhi

/-! ### Rounding whole numbers -/

/-- The significand of a whole number, rounded to 53 bits. -/
def wholeSignificand (n : Nat) : Nat :=
  if 52 ≤ n.log2 then roundDiv n (2 ^ (n.log2 - 52)) else n * 2 ^ (52 - n.log2)

/-- The rounded whole number, times `2^52`. -/
def scaledWhole (n : Nat) : Nat := wholeSignificand n * 2 ^ n.log2

theorem roundDiv_one (n : Nat) : roundDiv n 1 = n := by
  simp only [roundDiv, Nat.mod_one, Nat.div_one, Nat.mul_zero, Nat.zero_lt_one, if_true]

theorem roundDiv_mono {n n' : Nat} (d : Nat) (h : n ≤ n') : roundDiv n d ≤ roundDiv n' d := by
  rcases Nat.lt_or_ge (n / d) (n' / d) with hlt | hge
  · exact (roundDiv_le n d).trans ((Nat.succ_le_of_lt hlt).trans (le_roundDiv n' d))
  · have heq : n / d = n' / d := Nat.le_antisymm (Nat.div_le_div_right h) hge
    have hn := Nat.div_add_mod n d
    have hn' := Nat.div_add_mod n' d
    rw [← heq] at hn'
    simp only [roundDiv, ← heq]
    repeat' split
    all_goals omega

variable {n : Nat}

theorem wholeSignificand_bounds (hn : 0 < n) :
    2 ^ 52 ≤ wholeSignificand n ∧ wholeSignificand n ≤ 2 ^ 53 := by
  have hlo : 2 ^ n.log2 ≤ n := Nat.log2_self_le (Nat.ne_of_gt hn)
  have hhi : n < 2 ^ (n.log2 + 1) := Nat.lt_log2_self
  unfold wholeSignificand
  split
  · next hwide =>
    have hquotient : 2 ^ 52 ≤ n / 2 ^ (n.log2 - 52) ∧ n / 2 ^ (n.log2 - 52) < 2 ^ 53 := by
      refine ⟨(Nat.le_div_iff_mul_le (Nat.two_pow_pos _)).2 ?_,
        (Nat.div_lt_iff_lt_mul (Nat.two_pow_pos _)).2 ?_⟩
      · rwa [← Nat.pow_add, Nat.add_sub_cancel' hwide]
      · rwa [← Nat.pow_add, show 53 + (n.log2 - 52) = n.log2 + 1 by omega]
    have := roundDiv_le n (2 ^ (n.log2 - 52))
    have := le_roundDiv n (2 ^ (n.log2 - 52))
    omega
  · next hnarrow =>
    have hsplit : 2 ^ 52 = 2 ^ n.log2 * 2 ^ (52 - n.log2) := by
      rw [← Nat.pow_add, Nat.add_sub_cancel' (by omega)]
    rw [Nat.pow_succ] at hhi
    refine ⟨hsplit ▸ Nat.mul_le_mul_right _ hlo, ?_⟩
    rw [show (2 : Nat) ^ 53 = 2 ^ 52 * 2 from rfl, hsplit, Nat.mul_right_comm]
    exact Nat.mul_le_mul_right _ hhi.le

theorem wholeSignificand_mono {n' : Nat} (h : n ≤ n') (hlog : n.log2 = n'.log2) :
    wholeSignificand n ≤ wholeSignificand n' := by
  unfold wholeSignificand
  rw [hlog]
  split
  · exact roundDiv_mono _ h
  · exact Nat.mul_le_mul_right _ h

theorem log2_mono {n' : Nat} (h : n ≤ n') : n.log2 ≤ n'.log2 :=
  log2_le_of_lt (h.trans_lt Nat.lt_log2_self)

theorem scaledWhole_mono {n' : Nat} (hn : 0 < n) (h : n ≤ n') : scaledWhole n ≤ scaledWhole n' := by
  rcases Nat.lt_or_ge n.log2 n'.log2 with hlt | hge
  · calc scaledWhole n ≤ 2 ^ 53 * 2 ^ n.log2 :=
          Nat.mul_le_mul_right _ (wholeSignificand_bounds hn).2
      _ = 2 ^ 52 * 2 ^ (n.log2 + 1) := by rw [Nat.pow_succ 2 n.log2]; ring
      _ ≤ 2 ^ 52 * 2 ^ n'.log2 := Nat.mul_le_mul_left _ (Nat.pow_le_pow_right (by decide) hlt)
      _ ≤ scaledWhole n' := Nat.mul_le_mul_right _ (wholeSignificand_bounds (hn.trans_le h)).1
  · have hlog := Nat.le_antisymm (log2_mono h) hge
    rw [scaledWhole, scaledWhole, hlog]
    exact Nat.mul_le_mul_right _ (wholeSignificand_mono h hlog)

theorem order_one (hn : 0 < n) : order n 1 = n.log2 := by
  have hlo : 2 ^ n.log2 ≤ n := Nat.log2_self_le (Nat.ne_of_gt hn)
  have hone : ((1 : Nat).log2 : Int) = 0 := rfl
  unfold order
  simp only [hone, Int.sub_zero, Int.natCast_nonneg, if_true, Int.toNat_natCast, Nat.one_mul,
    Nat.pow_eq]
  exact if_neg (Nat.not_lt.2 hlo)

/-- The bits of a whole number: the leading one of the significand is carried into the exponent. -/
theorem nearestBits_one (hn : 0 < n) :
    nearestBits n 1 = min ((n.log2 + 1022) * 2 ^ 52 + wholeSignificand n) (2047 * 2 ^ 52) := by
  have hexponent : max leastExponent ((n.log2 : Int) - 52) = n.log2 - 52 := by
    rw [leastExponent]
    omega
  have hbiased : ((n.log2 : Int) - 52 - leastExponent).toNat = n.log2 + 1022 := by
    rw [leastExponent]
    omega
  have hsignificand : (if 0 ≤ (n.log2 : Int) - 52
      then roundDiv n (1 * Nat.pow 2 ((n.log2 : Int) - 52).toNat)
      else roundDiv (n * Nat.pow 2 (-((n.log2 : Int) - 52)).toNat) 1) = wholeSignificand n := by
    unfold wholeSignificand
    by_cases hwide : 52 ≤ n.log2
    · rw [if_pos hwide, if_pos (by omega), Nat.one_mul,
        show ((n.log2 : Int) - 52).toNat = n.log2 - 52 by omega]
      rfl
    · rw [if_neg hwide, if_neg (by omega), roundDiv_one,
        show (-((n.log2 : Int) - 52)).toNat = 52 - n.log2 by omega]
      rfl
  unfold nearestBits
  rw [if_neg (Nat.ne_of_gt hn), order_one hn, hexponent]
  dsimp only
  rw [hbiased, hsignificand]
  rfl

theorem two_zpow_mul {e : Int} {k : Nat} (h : e + 52 = k) : (2 : ℚ) ^ e * 2 ^ 52 = 2 ^ k := by
  rw [← zpow_natCast 2 k, ← h, zpow_add₀ (by norm_num)]
  rfl

/-- The double nearest to a whole number. -/
theorem unpack_ofNat (hn : 0 < n) (hfits : nearestBits n 1 < 2047 * 2 ^ 52) :
    ∃ m e hm, (ofNat n).toModel.unpack = .finite .positive m e hm ∧ 2 ^ 52 ≤ m ∧
      (m : ℚ) * 2 ^ e * 2 ^ 52 = scaledWhole n := by
  obtain ⟨hlo, hhi⟩ := wholeSignificand_bounds hn
  have hbits := nearestBits_one hn
  have hbits' : nearestBits n 1 = (n.log2 + 1022) * 2 ^ 52 + wholeSignificand n := by omega
  obtain ⟨hm, hunpack⟩ := unpack_ofBits (by omega) hfits
  have hofNat : ofNat n = Float.ofBits (UInt64.ofNat (nearestBits n 1)) := by
    rw [ofNat, nearest, if_neg Bool.false_ne_true, Nat.zero_add]
  refine ⟨_, _, hm, hofNat ▸ hunpack, by omega, ?_⟩
  -- A significand of 54 bits is the next power of two.
  rcases Nat.lt_or_eq_of_le hhi with hlt | heq
  · have hquotient : nearestBits n 1 / 2 ^ 52 = n.log2 + 1023 := by omega
    have hrest : 2 ^ 52 + nearestBits n 1 % 2 ^ 52 = wholeSignificand n := by omega
    rw [hquotient, hrest, mul_assoc, two_zpow_mul (by omega : _ = (n.log2 : Int)), scaledWhole]
    push_cast
    rfl
  · have hquotient : nearestBits n 1 / 2 ^ 52 = n.log2 + 1024 := by omega
    have hrest : 2 ^ 52 + nearestBits n 1 % 2 ^ 52 = 2 ^ 52 := by omega
    rw [hquotient, hrest, mul_assoc, two_zpow_mul (by omega : _ = ((n.log2 + 1 : Nat) : Int)),
      scaledWhole, heq]
    push_cast
    ring

/-- A product of whole numbers is finite if the product of greater ones is, rounded alike. -/
theorem isInf_ofNat_mul {k n' : Nat} (hn : 0 < n) (hle : n ≤ n') (hk : 0 < k)
    (hfits : nearestBits n 1 < 2047 * 2 ^ 52) (hfits' : nearestBits k 1 < 2047 * 2 ^ 52)
    (h : scaledWhole n' * scaledWhole k < overflow * 2 ^ 104) :
    (ofNat n * ofNat k).isInf = false := by
  obtain ⟨m, e, hm, hunpack, hwide, hvalue⟩ := unpack_ofNat hn hfits
  obtain ⟨m', e', hm', hunpack', hwide', hvalue'⟩ := unpack_ofNat hk hfits'
  refine isInf_mul hunpack hunpack' (hwide.trans (Nat.le_mul_of_pos_right m hm')) ?_
  have hmono : scaledWhole n * scaledWhole k < overflow * 2 ^ 104 :=
    (Nat.mul_le_mul_right _ (scaledWhole_mono hn hle)).trans_lt h
  have hmono' : (scaledWhole n * scaledWhole k : ℚ) < overflow * 2 ^ 104 := by exact_mod_cast hmono
  have hproduct :
      ((m * m' : Nat) : ℚ) * 2 ^ (e + e') * 2 ^ 104 = scaledWhole n * scaledWhole k := by
    rw [← hvalue, ← hvalue', zpow_add₀ (by norm_num)]
    push_cast
    ring
  rw [← hproduct] at hmono'
  exact lt_of_mul_lt_mul_right hmono' (by positivity)

end Reckoner.Double

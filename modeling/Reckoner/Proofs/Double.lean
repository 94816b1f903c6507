import Mathlib
import Reckoner.Double.Basic

/-!
# Doubles by their bits

`exists_read_eq_finite`: a double that is finite is read as a finite value.

`mul_one`: the product of a double and one is that double, bit by bit, and NaN is no exception as
there is but one of it. The significand of one is `2^52`, so that the exact product of significands
has 52 zeros behind the bits of the double; rounding takes them away again (`round_scaled`), as the
exponent that was read from the bits is the one that rounding aims at (`aims_unpack`). Packing what
was unpacked gives the bits back (`pack_unpack`).
-/

namespace Reckoner.Double
open Float.Model Float.Model.UnpackedFloat

/-- Rounding leaves the exponent of `m * 2^e` as it is. -/
def Aims (m : Nat) (e : Int) : Prop := Format.binary64.targetExponent (totalExponent m e) = e

theorem targetExponent_eq (n : Int) : Format.binary64.targetExponent n = max (n - 53) (-1074) := rfl

theorem log2_eq_of_normal {m : Nat} (hlo : 2 ^ 52 ≤ m) (hhi : m < 2 ^ 53) : m.log2 = 52 := by
  have hm : m ≠ 0 := by omega
  have hge : 52 ≤ m.log2 := (Nat.le_log2 hm).2 hlo
  have hlt : m.log2 < 53 := (Nat.log2_lt hm).2 hhi
  omega

theorem log2_lt_of_subnormal {m : Nat} (hm : 0 < m) (hhi : m < 2 ^ 52) : m.log2 < 52 :=
  (Nat.log2_lt (Nat.ne_of_gt hm)).2 hhi

theorem aims_of_normal {m : Nat} {e : Int} (hlo : 2 ^ 52 ≤ m) (hhi : m < 2 ^ 53) (he : -1074 ≤ e) :
    Aims m e := by
  rw [Aims, targetExponent_eq, totalExponent, log2_eq_of_normal hlo hhi]
  omega

theorem aims_of_subnormal {m : Nat} (hm : 0 < m) (hhi : m < 2 ^ 52) : Aims m (-1074) := by
  have hlog := log2_lt_of_subnormal hm hhi
  rw [Aims, targetExponent_eq, totalExponent]
  omega

/-! ### Reading -/

section
variable (b : BitVec Format.binary64.numBits)

theorem toNat_unpackExponent : (unpackExponent b).toNat = b.toNat / 2 ^ 52 % 2 ^ 11 := by
  show BitVec.toNat (BitVec.cast _ (BitVec.extractLsb _ _ _)) = _
  rw [BitVec.toNat_cast, BitVec.extractLsb_toNat, Nat.shiftRight_eq_div_pow]
  rfl

theorem toNat_unpackMantissa : (unpackMantissa b).toNat = b.toNat % 2 ^ 52 := by
  show BitVec.toNat (BitVec.cast _ (BitVec.extractLsb _ _ _)) = _
  rw [BitVec.toNat_cast, BitVec.extractLsb_toNat, Nat.shiftRight_zero]
  rfl

theorem toNat_unpackSign : (unpackSign b).toNat = b.toNat / 2 ^ 63 % 2 := by
  show BitVec.toNat (BitVec.cast _ (BitVec.extractLsb _ _ _)) = _
  rw [BitVec.toNat_cast, BitVec.extractLsb_toNat, Nat.shiftRight_eq_div_pow]
  rfl

end

theorem exponent_toNat (x : Float) :
    (unpackExponent x.toModel.toBits.toBitVec : BitVec Format.binary64.exponentBits).toNat =
      x.toBits.toNat / fractionSize % 2048 := toNat_unpackExponent _

theorem exists_read_eq_finite {x : Float} (h : x.isFinite = true) : ∃ v, read x = .finite v := by
  change x.toModel.unpack.isFinite = true at h
  unfold Float.Model.unpack UnpackedFloat.unpack at h
  dsimp only at h
  split at h
  · split at h <;> exact nomatch h
  · next hexp =>
    have hbiased : x.toBits.toNat / fractionSize % 2048 ≠ 2047 := fun hbiased =>
      hexp (BitVec.eq_of_toNat_eq ((exponent_toNat x).trans hbiased))
    unfold read readBits
    dsimp only
    rw [if_neg hbiased]
    split
    · exact ⟨_, rfl⟩
    · exact ⟨_, rfl⟩

/-! ### Rounding -/

/-- Zeros that are shifted out leave no trace. -/
theorem repeat_shiftRightOne (m : Nat) : ∀ n : Nat,
    n.repeat ExtendedMantissa.shiftRightOne ⟨m * 2 ^ n, false, false⟩ = ⟨m, false, false⟩
  | 0 => by rw [Nat.pow_zero, Nat.mul_one]; rfl
  | n + 1 => by
    have hm : m * 2 ^ (n + 1) = m * 2 * 2 ^ n := by rw [Nat.pow_succ']; exact (Nat.mul_assoc ..).symm
    rw [Nat.repeat, hm, repeat_shiftRightOne (m * 2) n]
    simp [ExtendedMantissa.shiftRightOne]

theorem log2_mul_two_pow {m : Nat} (hm : 0 < m) (n : Nat) : (m * 2 ^ n).log2 = m.log2 + n := by
  have hpos : m * 2 ^ n ≠ 0 := Nat.ne_of_gt (Nat.mul_pos hm (Nat.two_pow_pos n))
  refine (Nat.log2_eq_iff hpos).2 ⟨?_, ?_⟩
  · rw [Nat.pow_add]
    exact Nat.mul_le_mul_right _ (Nat.log2_self_le (Nat.ne_of_gt hm))
  · rw [show m.log2 + n + 1 = m.log2 + 1 + n by omega, Nat.pow_add]
    exact Nat.mul_lt_mul_of_pos_right Nat.lt_log2_self (Nat.two_pow_pos n)

theorem shift_scaled {m : Nat} {e : Int} (hm : 0 < m) (h : Aims m e) (n : Nat) :
    shiftToTargetExponent .binary64 (m * 2 ^ n) (e - n) .exact = (⟨m, false, false⟩, e) := by
  have htotal : totalExponent (m * 2 ^ n) (e - n) = totalExponent m e := by
    rw [totalExponent, totalExponent, log2_mul_two_pow hm]
    omega
  have hamount : (e - (e - (n : Int))).toNat = n := by omega
  rw [shiftToTargetExponent, htotal, h, shiftToExponent, hamount]
  refine Prod.ext (repeat_shiftRightOne m n) ?_
  show e - (n : Int) + n = e
  omega

theorem round_scaled {m : Nat} {e : Int} (s : Sign) (hm : 0 < m) (h : Aims m e) (n : Nat) :
    roundWithAccuracy .binary64 s (m * 2 ^ n) (e - n) .exact = .finite s m e hm := by
  have hagain := shift_scaled hm h 0
  rw [Nat.pow_zero, Nat.mul_one, Int.natCast_zero, Int.sub_zero] at hagain
  have hexact : (⟨m, false, false⟩ : ExtendedMantissa).roundedMantissa = m := rfl
  simp only [roundWithAccuracy, shift_scaled hm h n, hexact, hagain]
  exact dif_neg (Nat.ne_of_gt hm)

/-! ### Packing -/

section
variable (b : BitVec Format.binary64.numBits)

theorem mantissa_lt : (unpackMantissa b).toNat < 2 ^ 52 := (unpackMantissa b).isLt

theorem exponent_lt : (unpackExponent b).toNat < 2 ^ 11 := (unpackExponent b).isLt

theorem toNat_implicit : (1#1 ++ unpackMantissa b).toNat = 2 ^ 52 + (unpackMantissa b).toNat := by
  rw [BitVec.toNat_append, ← Nat.shiftLeft_add_eq_or_of_lt (mantissa_lt b)]
  rfl

theorem toBitVec_ofBitVec (s : BitVec 1) : (Sign.ofBitVec s).toBitVec = s := by
  revert s; decide

/-- The three fields together are all of the bits. -/
theorem packComponents_fields :
    packComponents .binary64 (Sign.ofBitVec (unpackSign b)) (unpackExponent b) (unpackMantissa b) =
      b := by
  rw [packComponents, toBitVec_ofBitVec]
  refine BitVec.eq_of_getLsbD_eq fun i hi => ?_
  simp only [unpackSign, unpackExponent, unpackMantissa, BitVec.getLsbD_append, BitVec.getLsbD_cast,
    BitVec.getLsbD_extractLsb]
  grind

theorem unpackMantissa_pos (h : unpackMantissa b ≠ 0#52) : 0 < (unpackMantissa b).toNat :=
  Nat.pos_of_ne_zero fun h0 => h (BitVec.eq_of_toNat_eq h0)

theorem unpackExponent_pos (h : unpackExponent b ≠ 0#11) : 0 < (unpackExponent b).toNat :=
  Nat.pos_of_ne_zero fun h0 => h (BitVec.eq_of_toNat_eq h0)

theorem aims_unpack {s : Sign} {m : Nat} {e : Int} {hm : 0 < m}
    (h : UnpackedFloat.unpack .binary64 b = .finite s m e hm) : Aims m e := by
  have hmant := mantissa_lt b
  unfold UnpackedFloat.unpack at h
  dsimp only at h
  split at h
  · split at h <;> exact nomatch h
  · split at h
    · next hexp =>
      split at h
      · exact nomatch h
      · next hne =>
        injection h with _ hm he
        subst hm he
        rw [hexp]
        exact aims_of_subnormal (unpackMantissa_pos b hne) hmant
    · next hexp =>
      injection h with _ hm he
      have hpos := unpackExponent_pos b hexp
      have hbias : ((Format.binary64.exponentBias : Int) + (52 : Nat)) = 1075 := rfl
      rw [toNat_implicit] at hm
      refine aims_of_normal (by omega) (by omega) ?_
      rw [← he]
      omega

/-- The fields of a finite double that is not zero, packed again. -/
theorem pack_normal (s : Sign) {m : Nat} (k : Nat) (hlo : 2 ^ 52 ≤ m) (hhi : m < 2 ^ 53)
    (hk : k < 2047) {hm : 0 < m} :
    UnpackedFloat.pack .binary64 (.finite s m (k - 1075) hm) =
      packComponents .binary64 s (BitVec.ofNat 11 k) (BitVec.ofNat 52 m) := by
  have hbiased : ((k : Int) - 1075 + Format.binary64.exponentBias + (52 : Nat)).toNat = k := by
    show ((k : Int) - 1075 + 1023 + 52).toNat = k
    omega
  have hfits : ¬ 2 ^ 11 ≤ k + 1 := by omega
  have hlog : m.log2 + 1 = Format.binary64.mantissaBits := by
    rw [log2_eq_of_normal hlo hhi]; rfl
  simp only [UnpackedFloat.pack, hbiased, hfits, hlog, if_false, if_true]

theorem pack_subnormal (s : Sign) {m : Nat} (hm : 0 < m) (hhi : m < 2 ^ 52) :
    UnpackedFloat.pack .binary64 (.finite s m (-1074) hm) =
      packComponents .binary64 s 0#11 (BitVec.ofNat 52 m) := by
  have hlt := log2_lt_of_subnormal hm hhi
  have hlog : ¬ m.log2 + 1 = Format.binary64.mantissaBits := by
    show ¬ m.log2 + 1 = 53
    omega
  have hfits : ¬ 2 ^ Format.binary64.exponentBits ≤ ((-1074 : Int) + Format.binary64.exponentBias +
      Format.binary64.mantissaBitsWithoutImplicit).toNat + 1 := by decide
  simp only [UnpackedFloat.pack, hfits, hlog, if_false]

theorem pack_unpack_bits (hv : Format.binary64.Valid b) :
    UnpackedFloat.pack .binary64 (UnpackedFloat.unpack .binary64 b) = b := by
  have hfields := packComponents_fields b
  have hmant := mantissa_lt b
  unfold UnpackedFloat.unpack
  dsimp only
  split
  · next hexp =>
    -- an infinity, or the one NaN that is valid
    split
    · next hzero => rw [hexp, hzero] at hfields; exact hfields
    · next hne => exact (hv.eq_packedNaN hexp hne).symm
  · next hmax =>
    split
    · next hexp =>
      split
      · next hzero => rw [hexp, hzero] at hfields; exact hfields
      · next hne =>
        -- without the implicit bit
        have hpos := unpackMantissa_pos b hne
        have hexponent : (((unpackExponent b).toNat : Int) -
            (Format.binary64.exponentBias + (52 : Nat)) + 1) = -1074 := by rw [hexp]; rfl
        have hsame : BitVec.ofNat 52 (unpackMantissa b).toNat = unpackMantissa b := by simp
        simp only [hexponent]
        rw [pack_subnormal _ hpos hmant, hsame, ← hexp]
        exact hfields
    · next hexp =>
      have hlt := exponent_lt b
      have hne : (unpackExponent b).toNat ≠ 2047 := fun h => hmax (BitVec.eq_of_toNat_eq h)
      have hbias : ((Format.binary64.exponentBias : Int) + (52 : Nat)) = 1075 := rfl
      have hsame : BitVec.ofNat 11 (unpackExponent b).toNat = unpackExponent b := by simp
      have hdrop : BitVec.ofNat 52 (1#1 ++ unpackMantissa b).toNat = unpackMantissa b := by
        refine BitVec.eq_of_toNat_eq ?_
        rw [BitVec.toNat_ofNat, toNat_implicit]
        omega
      have himplicit := toNat_implicit b
      simp only [hbias]
      rw [pack_normal _ _ (by omega) (by omega) (by omega), hsame, hdrop]
      exact hfields

end

/-- A double is its bits: packing what was unpacked loses nothing. -/
theorem pack_unpack (x : Float.Model) : Float.Model.pack x.unpack = x := by
  obtain ⟨bits, hv⟩ := x
  have h : UnpackedFloat.pack .binary64 (UnpackedFloat.unpack .binary64 bits.toBitVec) =
      bits.toBitVec := pack_unpack_bits bits.toBitVec hv
  simp only [Float.Model.pack, Float.Model.unpack, h]

/-! ### One -/

theorem unpack_one : (1 : Float).toModel.unpack = .finite .positive (2 ^ 52) (-52) (by decide) := by
  rfl

theorem mul_positive (s : Sign) : s * .positive = s := by cases s <;> rfl

/-- One leaves a factor as it is. -/
theorem unpacked_mul_one (x : Float.Model) :
    UnpackedFloat.mul .binary64 x.unpack (.finite .positive (2 ^ 52) (-52) (by decide)) =
      x.unpack := by
  cases h : x.unpack with
  | notANumber => rfl
  | infinity s => rw [UnpackedFloat.mul, mul_positive]
  | zero s => rw [UnpackedFloat.mul, mul_positive]
  | finite s m e hm =>
    rw [UnpackedFloat.mul, mul_positive]
    exact round_scaled s hm (aims_unpack x.toBits.toBitVec h) 52

theorem mul_one (x : Float) : x * 1 = x := by
  show Float.ofModel (x.toModel.mul (1 : Float).toModel) = x
  rw [Float.Model.mul, unpack_one, unpacked_mul_one, pack_unpack]

end Reckoner.Double

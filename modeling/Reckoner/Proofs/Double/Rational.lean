import Reckoner.Proofs.Double.Nearest
import Reckoner.Proofs.Double.Neutral

/-!
# Doubles as rationals

A finite double is a rational number, read off its bits. What is positive among the doubles is positive
as a rational (`rational_pos`): the bits of a double other than zero are read as its sign and a
significand that is not zero (`readBits_of_unpack`).
-/

namespace Reckoner.Double
open Float.Model Float.Model.UnpackedFloat

/-- The number that a finite double is; zero for the others. -/
def rational (x : Float) : ℚ :=
  match read x with
  | .finite v => v.value
  | _ => 0

/-- Whether a sign is the minus sign. -/
def isMinus : Sign → Bool
  | .negative => true
  | .positive => false

theorem isMinus_unpackSign (b : BitVec Format.binary64.numBits) :
    (b.toNat / signBit % 2 == 1) = isMinus (Sign.ofBitVec (unpackSign b)) := by
  have hbit : (unpackSign b).toNat = b.toNat / signBit % 2 := toNat_unpackSign b
  rw [← hbit]
  generalize unpackSign b = sign
  revert sign
  decide

theorem readBits_of_unpack {b : BitVec Format.binary64.numBits} {s : Sign} {m : Nat} {e : Int}
    {hm : 0 < m} (h : UnpackedFloat.unpack .binary64 b = .finite s m e hm) :
    readBits b.toNat = .finite ⟨isMinus s, m, e⟩ := by
  have hexponent : (unpackExponent b).toNat = b.toNat / fractionSize % 2048 :=
    toNat_unpackExponent b
  have hfraction : (unpackMantissa b).toNat = b.toNat % fractionSize := toNat_unpackMantissa b
  have hbias : ((Format.binary64.exponentBias : Int) + (52 : Nat)) = 1075 := rfl
  unfold UnpackedFloat.unpack at h
  dsimp only at h
  split at h
  · split at h <;> cases h
  · next hfinite =>
    have hbiased : b.toNat / fractionSize % 2048 ≠ 2047 := fun heq =>
      hfinite (BitVec.eq_of_toNat_eq (hexponent.trans heq))
    split at h
    · next hzero =>
      split at h
      · cases h
      · injection h with hsign hsignificand hplace
        have hsubnormal : b.toNat / fractionSize % 2048 = 0 := by
          rw [← hexponent, hzero]
          rfl
        rw [hzero, hbias] at hplace
        rw [readBits, isMinus_unpackSign, hsign, if_neg hbiased, if_pos hsubnormal, ← hfraction,
          hsignificand, ← hplace]
        rfl
    · next hnormal =>
      injection h with hsign hsignificand hplace
      have hpos : b.toNat / fractionSize % 2048 ≠ 0 := fun heq =>
        hnormal (BitVec.eq_of_toNat_eq (hexponent.trans heq))
      rw [hexponent, hbias] at hplace
      rw [toNat_implicit, hfraction, Nat.add_comm] at hsignificand
      rw [readBits, isMinus_unpackSign, hsign, if_neg hbiased, if_neg hpos, ← hplace,
        ← hsignificand]
      rfl

theorem readBits_of_unpack_zero {b : BitVec Format.binary64.numBits} {s : Sign}
    (h : UnpackedFloat.unpack .binary64 b = .zero s) :
    ∃ negative e, readBits b.toNat = .finite ⟨negative, 0, e⟩ := by
  have hexponent : (unpackExponent b).toNat = b.toNat / fractionSize % 2048 :=
    toNat_unpackExponent b
  have hfraction : (unpackMantissa b).toNat = b.toNat % fractionSize := toNat_unpackMantissa b
  unfold UnpackedFloat.unpack at h
  dsimp only at h
  split at h
  · split at h <;> cases h
  · split at h
    · next hzero =>
      split at h
      · next hnone =>
        rw [hzero] at hexponent
        rw [hnone] at hfraction
        refine ⟨b.toNat / signBit % 2 == 1, leastExponent, ?_⟩
        rw [readBits, ← hexponent, ← hfraction]
        rfl
      · cases h
    · cases h

/-- A finite double is zero if its significand is. -/
theorem beq_zero_iff {x : Float} (hfinite : x.isFinite = true) {v : Binary}
    (h : read x = .finite v) : (x == 0) = true ↔ v.significand = 0 := by
  change x.toModel.unpack.isFinite = true at hfinite
  show x.toModel.unpack.beq (0 : Float).toModel.unpack = true ↔ _
  change readBits x.toModel.toBits.toBitVec.toNat = _ at h
  rw [unpack_zero]
  cases hx : x.toModel.unpack with
  | notANumber | infinity s =>
    rw [hx] at hfinite
    cases hfinite
  | zero s =>
    obtain ⟨negative, e, hread⟩ := readBits_of_unpack_zero hx
    cases h.symm.trans hread
    exact iff_of_true (by cases s <;> rfl) rfl
  | finite s m e hm =>
    have hread := readBits_of_unpack hx
    cases h.symm.trans hread
    exact iff_of_false (by cases s <;> simp [UnpackedFloat.beq, UnpackedFloat.compare])
      (Nat.ne_of_gt hm)

theorem rational_pos {x : Float} (hfinite : x.isFinite = true) (hpos : 0 < x) : 0 < rational x := by
  obtain ⟨m, e, hm, h⟩ := unpack_of_pos hfinite hpos
  have hread : read x = .finite ⟨false, m, e⟩ := readBits_of_unpack h
  rw [rational, hread]
  exact mul_pos (Int.cast_pos.2 (Int.natCast_pos.2 hm)) (zpow_pos two_pos _)

end Reckoner.Double

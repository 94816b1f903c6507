import Reckoner.Proofs.Double

/-!
# Zero and one in sums, products and quotients

Zero and one as operands, bit by bit: taking zero away and dividing by one leave a double as it is, and
adding zero does so unless the double is the negative zero. Zero times or over a positive number is zero.
-/

namespace Reckoner.Double
open Float.Model Float.Model.UnpackedFloat

theorem unpack_zero : (0 : Float).toModel.unpack = .zero .positive := by rfl

theorem pack_eq_of_unpack {x : Float} {u : UnpackedFloat} (h : u = x.toModel.unpack) :
    Float.ofModel (Float.Model.pack u) = x := by
  rw [h, pack_unpack]

protected theorem sub_zero (x : Float) : x - 0 = x := by
  refine pack_eq_of_unpack ?_
  rw [unpack_zero]
  cases x.toModel.unpack with
  | zero s => cases s <;> rfl
  | _ => rfl

/-- The sum of the two zeros is the positive one. -/
protected theorem add_zero (x : Float) : x + 0 = x ∨ x.toModel.unpack = .zero .negative := by
  have hsame : UnpackedFloat.add .binary64 x.toModel.unpack (.zero .positive) = x.toModel.unpack →
      x + 0 = x := by
    intro h
    refine pack_eq_of_unpack ?_
    rw [unpack_zero, h]
  cases h : x.toModel.unpack with
  | zero s =>
    cases s with
    | positive => exact .inl (hsame (by rw [h]; rfl))
    | negative => exact .inr rfl
  | _ => exact .inl (hsame (by rw [h]; rfl))

protected theorem mul_comm (x y : Float) : x * y = y * x := by
  have hsign : ∀ s t : Sign, s * t = t * s := by rintro (_ | _) (_ | _) <;> rfl
  have hcomm : ∀ u v : UnpackedFloat,
      UnpackedFloat.mul .binary64 u v = UnpackedFloat.mul .binary64 v u := by
    intro u v
    cases u <;> cases v <;> simp only [UnpackedFloat.mul, hsign, Nat.mul_comm, Int.add_comm]
  exact congrArg (fun u => Float.ofModel (Float.Model.pack u)) (hcomm _ _)

/-! ### One as a divisor -/

/-- The quotient is exact, and what it is scaled by is a power of two. -/
theorem divCore_one {m : Nat} {e : Int} (h : Aims m e) :
    ∃ k : Nat, divCore .binary64 m e (2 ^ 52) (-52) = (m * 2 ^ k, e - k, .exact) := by
  have htotal : totalExponent (2 ^ 52) (-52) = 1 := by rfl
  obtain ⟨t, ht⟩ : ∃ t, t = Format.binary64.targetExponent (totalExponent m e - 1) := ⟨_, rfl⟩
  have hle : t ≤ e := by
    rw [Aims, targetExponent_eq] at h
    rw [targetExponent_eq] at ht
    omega
  obtain ⟨k, hk⟩ := Int.le.dest hle
  have hmin : min (e - -52) t = t := by omega
  have hshift : (e - -52 - t).toNat = k + 52 := by omega
  refine ⟨k, ?_⟩
  unfold divCore
  rw [htotal, ← ht]
  dsimp only
  rw [hmin, hshift, Nat.shiftLeft_eq, Nat.pow_add, ← Nat.mul_assoc, Nat.mul_div_cancel _ (by decide),
    Nat.mul_mod_left]
  refine Prod.ext rfl (Prod.ext ?_ rfl)
  show t = e - k
  omega

theorem div_positive (s : Sign) : s / .positive = s := by cases s <;> rfl

theorem unpacked_div_one (x : Float.Model) :
    UnpackedFloat.div .binary64 x.unpack (.finite .positive (2 ^ 52) (-52) (by decide)) =
      x.unpack := by
  cases h : x.unpack with
  | notANumber => rfl
  | infinity s => rw [UnpackedFloat.div, div_positive]
  | zero s => rw [UnpackedFloat.div, div_positive]
  | finite s m e hm =>
    have haims := aims_unpack x.toBits.toBitVec h
    obtain ⟨k, hk⟩ := divCore_one haims
    rw [UnpackedFloat.div, div_positive, hk]
    exact round_scaled s hm haims k

protected theorem div_one (x : Float) : x / 1 = x := by
  show Float.ofModel (x.toModel.div (1 : Float).toModel) = x
  rw [Float.Model.div, unpack_one, unpacked_div_one, pack_unpack]

/-! ### Zero and a positive number -/

section
variable {x : Float} (hfinite : x.isFinite = true) (hpos : 0 < x)
include hfinite hpos

theorem unpack_of_pos : ∃ m e hm, x.toModel.unpack = .finite .positive m e hm := by
  change x.toModel.unpack.isFinite = true at hfinite
  have hlt : (0 : Float).toModel.unpack.lt x.toModel.unpack = true := of_decide_eq_true hpos
  rw [unpack_zero] at hlt
  cases h : x.toModel.unpack with
  | notANumber | infinity s =>
    rw [h] at hfinite
    cases hfinite
  | zero s =>
    rw [h] at hlt
    cases hlt
  | finite s m e hm =>
    cases s with
    | negative =>
      rw [h] at hlt
      cases hlt
    | positive => exact ⟨m, e, hm, rfl⟩

theorem zero_mul_of_pos : 0 * x = 0 := by
  obtain ⟨m, e, hm, h⟩ := unpack_of_pos hfinite hpos
  refine pack_eq_of_unpack ?_
  rw [unpack_zero, h]
  rfl

theorem zero_div_of_pos : 0 / x = 0 := by
  obtain ⟨m, e, hm, h⟩ := unpack_of_pos hfinite hpos
  refine pack_eq_of_unpack ?_
  rw [unpack_zero, h]
  rfl

theorem add_zero_of_pos : x + 0 = x := by
  obtain ⟨m, e, hm, h⟩ := unpack_of_pos hfinite hpos
  refine (Double.add_zero x).resolve_right fun hzero => ?_
  rw [h] at hzero
  cases hzero

end

end Reckoner.Double

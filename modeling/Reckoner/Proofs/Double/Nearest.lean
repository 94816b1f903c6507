import Reckoner.Proofs.Json.Doubles

/-!
# Rounding gives the nearest double

`Nearest q x` says that no finite double is nearer to `q` than `x`, whatever its bits. The bits that
rounding computes are those of a significand that is nearest to a quotient among the integers
(`rounds_roundDiv`); doubles of a smaller exponent are out of reach of it, and the others are multiples
of the same power of two (`Rounded.nearest`).
-/

namespace Reckoner.Double

open Decimal (zpow_eq_div order_bounds)
open Float.Model Float.Model.UnpackedFloat

def Binary.signed (v : Binary) : Int := if v.negative then -v.significand else v.significand

/-- The number that a finite double is. -/
def Binary.value (v : Binary) : ℚ := v.signed * 2 ^ v.exponent

theorem Binary.signed_le (v : Binary) : v.signed ≤ v.significand := by
  unfold signed
  split <;> omega

/-- The double that a number that is not negative is rounded to. No finite double is nearer to it, and
of two that are as near it is the one with the even significand. From half a unit above the greatest
double on it is infinite. -/
def Nearest (q : ℚ) (x : Float) : Prop :=
  match read x with
  | .notANumber => False
  | .infinite negative => negative = false ∧ overflow ≤ q
  | .finite v => v.negative = false ∧ q < overflow ∧ ∀ y w, read y = .finite w →
      |v.value - q| ≤ |w.value - q| ∧
        (|v.value - q| = |w.value - q| → w.value = v.value ∨ v.significand % 2 = 0)

/-! ### Rounding to an integer -/

/-- The integer is nearest to `x`, and it is the even one of two. -/
structure Rounds (x : ℚ) (m : Nat) : Prop where
  close : |m - x| ≤ 1 / 2
  tie : |m - x| = 1 / 2 → m % 2 = 0

theorem roundDiv_cases (n d : Nat) : (roundDiv n d = n / d ∧ 2 * (n % d) < d) ∨
    (roundDiv n d = n / d + 1 ∧ d < 2 * (n % d)) ∨
    ((roundDiv n d = n / d ∨ roundDiv n d = n / d + 1) ∧ 2 * (n % d) = d ∧ roundDiv n d % 2 = 0) := by
  unfold roundDiv
  dsimp only
  split
  · next hlow => exact .inl ⟨rfl, hlow⟩
  · split
    · next hhigh => exact .inr (.inl ⟨rfl, hhigh⟩)
    · split
      · next heven => exact .inr (.inr ⟨.inl rfl, by omega, heven⟩)
      · exact .inr (.inr ⟨.inr rfl, by omega, by omega⟩)

theorem rounds_roundDiv (n : Nat) {d : Nat} (hd : 0 < d) : Rounds (n / d) (roundDiv n d) := by
  have hd' : (0 : ℚ) < d := by exact_mod_cast hd
  -- the part of a unit that is cut off
  obtain ⟨f, hf⟩ : ∃ f : ℚ, f = (n % d : Nat) / d := ⟨_, rfl⟩
  have hquotient : (n : ℚ) / d = (n / d : Nat) + f := by
    have hn : (n : ℚ) = d * (n / d : Nat) + (n % d : Nat) := by
      exact_mod_cast (Nat.div_add_mod n d).symm
    rw [hf, div_eq_iff hd'.ne', add_mul, div_mul_cancel₀ _ hd'.ne', mul_comm, ← hn]
  have hnonneg : 0 ≤ f := hf ▸ by positivity
  have hlt : f < 1 := by
    rw [hf, div_lt_one hd']
    exact_mod_cast Nat.mod_lt n hd
  have hbelow : |((n / d : Nat) : ℚ) - n / d| = f := by
    rw [hquotient, sub_add_cancel_left, abs_neg, abs_of_nonneg hnonneg]
  have habove : |((n / d + 1 : Nat) : ℚ) - n / d| = 1 - f := by
    rw [hquotient, Nat.cast_add, Nat.cast_one, add_sub_add_left_eq_sub, abs_of_nonneg (by linarith)]
  have hdouble : 2 * f * d = (2 * (n % d) : Nat) := by
    rw [hf, mul_assoc, div_mul_cancel₀ _ hd'.ne']
    push_cast
    rfl
  rcases roundDiv_cases n d with ⟨hround, h⟩ | ⟨hround, h⟩ | ⟨hround, h, heven⟩
  · have hhalf : 2 * f < 1 := by
      rw [← mul_lt_mul_iff_left₀ hd', hdouble, one_mul]
      exact_mod_cast h
    rw [hround]
    exact ⟨by linarith, fun htie => by linarith⟩
  · have hhalf : 1 < 2 * f := by
      rw [← mul_lt_mul_iff_left₀ hd', hdouble, one_mul]
      exact_mod_cast h
    rw [hround]
    exact ⟨by linarith, fun htie => by linarith⟩
  · have hhalf : 2 * f = 1 := by
      refine mul_right_cancel₀ hd'.ne' ?_
      rw [hdouble, h, one_mul]
    refine ⟨?_, fun _ => heven⟩
    rcases hround with hround | hround <;> rw [hround] <;> linarith

theorem Rounds.nearest {x : ℚ} {m : Nat} (h : Rounds x m) (j : Int) :
    |m - x| ≤ |j - x| ∧ (|m - x| = |j - x| → (j : ℚ) = m ∨ m % 2 = 0) := by
  by_cases hj : j = m
  · rw [hj]
    exact ⟨le_rfl, fun _ => .inl rfl⟩
  · have hapart : (1 : ℚ) ≤ |(j : ℚ) - m| := by
      have hint : 1 ≤ |j - m| := Int.one_le_abs (sub_ne_zero.2 hj)
      exact_mod_cast hint
    have htriangle : |(j : ℚ) - m| ≤ |j - x| + |m - x| := by
      rw [abs_sub_comm (m : ℚ) x]
      exact abs_sub_le _ _ _
    have hclose := h.close
    refine ⟨by linarith, fun heq => .inr (h.tie ?_)⟩
    linarith

/-- Half a unit below an even integer is where rounding reaches it. -/
theorem Rounds.lt_iff {x : ℚ} {m b : Nat} (h : Rounds x m) (hb : b % 2 = 0) :
    m < b ↔ x < b - 1 / 2 := by
  obtain ⟨hlo, hhi⟩ := abs_le.1 h.close
  constructor
  · intro hlt
    have hm : (m : ℚ) + 1 ≤ b := by exact_mod_cast hlt
    refine lt_of_le_of_ne (by linarith) fun heq => ?_
    -- a tie goes to the even integer, and that is not the one below `b`
    have hnext : m + 1 = b := by
      have hnext' : (m : ℚ) + 1 = b := by linarith
      exact_mod_cast hnext'
    have htie : |m - x| = 1 / 2 := by
      rw [heq, ← hnext, Nat.cast_add, Nat.cast_one, abs_of_nonpos (by linarith)]
      linarith
    have heven := h.tie htie
    omega
  · intro hlt
    have hm : (m : ℚ) < b := by linarith
    exact_mod_cast hm

/-! ### The order of a quotient -/

section
variable {n d : Nat}

theorem quotient_lt_iff (hd : 0 < d) (k : Int) :
    (if 0 ≤ k then n < d * Nat.pow 2 k.toNat else n * Nat.pow 2 (-k).toNat < d) ↔
      (n : ℚ) / d < 2 ^ k := by
  have hd' : (0 : ℚ) < d := by exact_mod_cast hd
  rw [zpow_eq_div, div_lt_div_iff₀ hd' (by positivity)]
  split
  · next hk =>
    have hneg : (-k).toNat = 0 := by omega
    rw [hneg, pow_zero, Rat.mul_one, mul_comm (2 ^ _ : ℚ)]
    exact_mod_cast Iff.rfl
  · next hk =>
    have hpos : k.toNat = 0 := by omega
    rw [hpos, pow_zero, one_mul]
    exact_mod_cast Iff.rfl

theorem order_spec (hn : 0 < n) (hd : 0 < d) :
    (2 : ℚ) ^ order n d ≤ n / d ∧ (n : ℚ) / d < 2 ^ (order n d + 1) := by
  obtain ⟨hlo, hhi⟩ := order_bounds hn hd
  have horder : order n d = if (n : ℚ) / d < 2 ^ ((n.log2 : Int) - d.log2)
      then (n.log2 : Int) - d.log2 - 1 else (n.log2 : Int) - d.log2 :=
    if_congr (quotient_lt_iff hd _) rfl rfl
  rw [horder]
  split
  · next hbelow => exact ⟨hlo.le, by rwa [sub_add_cancel]⟩
  · next habove => exact ⟨not_lt.1 habove, hhi⟩

end

/-! ### The significand and the exponent -/

/-- A significand and an exponent that a number is rounded to. Above the least exponent the number
has 53 bits in front of the point of the significand. -/
structure Rounded (q : ℚ) (m : Nat) (e : Int) : Prop where
  least : -1074 ≤ e
  rounds : Rounds (q / 2 ^ e) m
  below : q < 2 ^ (e + 53)
  normal : -1074 < e → 2 ^ (e + 52) ≤ q

/-- The quotient in units of a power of two is rounded to an integer. -/
theorem rounds_scaled (n : Nat) {d : Nat} (hd : 0 < d) (e : Int) : Rounds (n / d / 2 ^ e)
    (if 0 ≤ e then roundDiv n (d * Nat.pow 2 e.toNat) else roundDiv (n * Nat.pow 2 (-e).toNat) d) := by
  rw [zpow_eq_div]
  split
  · next hpos =>
    have hneg : (-e).toNat = 0 := by omega
    have hrounds := rounds_roundDiv n (Nat.mul_pos hd (Nat.two_pow_pos e.toNat))
    rw [Nat.cast_mul, Nat.cast_pow, ← div_div] at hrounds
    rw [hneg, pow_zero, div_one]
    exact hrounds
  · next hneg =>
    have hpos : e.toNat = 0 := by omega
    have hrounds := rounds_roundDiv (n * 2 ^ (-e).toNat) hd
    rw [Nat.cast_mul, Nat.cast_pow, mul_div_right_comm] at hrounds
    rw [hpos, pow_zero, div_div_eq_mul_div, div_one]
    exact hrounds

theorem nearestBits_spec (n : Nat) {d : Nat} (hd : 0 < d) : ∃ m e, Rounded (n / d) m e ∧
    nearestBits n d = min ((e + 1074).toNat * 2 ^ 52 + m) (2047 * 2 ^ 52) := by
  rcases Nat.eq_zero_or_pos n with rfl | hn
  · rw [Nat.cast_zero, zero_div]
    refine ⟨0, -1074, ⟨le_rfl, ⟨?_, fun _ => rfl⟩, ?_, fun h => absurd h (lt_irrefl _)⟩, ?_⟩
    · rw [zero_div, Nat.cast_zero, sub_zero, abs_zero]
      norm_num
    · exact zpow_pos (by norm_num) _
    · rw [nearestBits_zero, neg_add_cancel, Int.toNat_zero, Nat.zero_mul, Nat.zero_min]
  obtain ⟨hlo, hhi⟩ := order_spec hn hd
  obtain ⟨e, he⟩ : ∃ e, e = max leastExponent (order n d - 52) := ⟨_, rfl⟩
  have hexponent : e = max (-1074) (order n d - 52) := he
  have hone : (1 : ℚ) < 2 := by norm_num
  refine ⟨_, e, ⟨by omega, rounds_scaled n hd e, ?_, fun hnormal => ?_⟩, ?_⟩
  · exact hhi.trans_le (zpow_le_zpow_right₀ hone.le (by omega))
  · rwa [show e + 52 = order n d by omega]
  · have hbias : e - leastExponent = e + 1074 := by
      rw [leastExponent]
      omega
    have hsize : fractionSize = 2 ^ 52 := rfl
    rw [nearestBits, if_neg hn.ne', ← he]
    dsimp only
    rw [hbias, infinityBits, hsize]

namespace Rounded
variable {q : ℚ} {m : Nat} {e : Int} (h : Rounded q m e)
include h

theorem quotient_lt : q / 2 ^ e < 2 ^ 53 := by
  have hbelow := h.below
  rw [zpow_add₀ (by norm_num), mul_comm] at hbelow
  exact (div_lt_iff₀ (by positivity)).2 hbelow

theorem le_quotient (hnormal : -1074 < e) : 2 ^ 52 ≤ q / 2 ^ e := by
  have habove := h.normal hnormal
  rw [zpow_add₀ (by norm_num), mul_comm] at habove
  exact (le_div_iff₀ (by positivity)).2 habove

theorem significand_le : m ≤ 2 ^ 53 := by
  have hclose := (abs_le.1 h.rounds.close).2
  have hlt : (m : ℚ) < 2 ^ 53 + 1 := by linarith [h.quotient_lt]
  have hnat : m < 2 ^ 53 + 1 := by exact_mod_cast hlt
  omega

theorem le_significand (hnormal : -1074 < e) : 2 ^ 52 ≤ m := by
  have hclose := (abs_le.1 h.rounds.close).1
  have hlt : (2 : ℚ) ^ 52 < m + 1 := by linarith [h.le_quotient hnormal]
  have hnat : 2 ^ 52 < m + 1 := by exact_mod_cast hlt
  omega

omit h in
theorem abs_scaled (a : ℚ) : |a * 2 ^ e - q| = |a - q / 2 ^ e| * 2 ^ e := by
  have hpos : (0 : ℚ) < 2 ^ e := by positivity
  rw [← abs_of_pos hpos, ← abs_mul, abs_of_pos hpos, sub_mul, div_mul_cancel₀ _ hpos.ne']

/-- A multiple of the same power of two is not nearer. -/
theorem nearest_multiple (j : Int) : |m * 2 ^ e - q| ≤ |j * 2 ^ e - q| ∧
    (|m * 2 ^ e - q| = |j * 2 ^ e - q| → (j : ℚ) * 2 ^ e = m * 2 ^ e ∨ m % 2 = 0) := by
  have hpos : (0 : ℚ) < 2 ^ e := by positivity
  obtain ⟨hle, htie⟩ := h.rounds.nearest j
  rw [abs_scaled, abs_scaled]
  refine ⟨mul_le_mul_of_nonneg_right hle hpos.le, fun heq => ?_⟩
  exact (htie (mul_right_cancel₀ hpos.ne' heq)).imp_left fun hj => by rw [hj]

/-- A double of a smaller exponent is farther away. -/
theorem nearest_smaller {w : ℚ} (hnormal : -1074 < e) (hw : w < 2 ^ (e + 52)) :
    |m * 2 ^ e - q| < |w - q| := by
  have habove := h.normal hnormal
  have hpower : (((2 ^ 52 : Nat) : Int) : ℚ) * 2 ^ e = 2 ^ (e + 52) := by
    rw [zpow_add₀ (by norm_num), mul_comm]
    push_cast
    rfl
  have hle := (h.nearest_multiple (2 ^ 52 : Nat)).1
  rw [hpower] at hle
  refine hle.trans_lt ?_
  rw [abs_sub_comm, abs_of_nonneg (by linarith), abs_sub_comm, abs_of_pos (by linarith)]
  linarith

theorem nearest {w : Binary} (hw : w.significand < 2 ^ 53) (he : -1074 ≤ w.exponent) :
    |m * 2 ^ e - q| ≤ |w.value - q| ∧
      (|m * 2 ^ e - q| = |w.value - q| → w.value = m * 2 ^ e ∨ m % 2 = 0) := by
  rcases lt_or_ge w.exponent e with hsmaller | hgreater
  · have hvalue : w.value < 2 ^ (e + 52) := by
      have hsignificand : (w.significand : ℚ) < 2 ^ 53 := by exact_mod_cast hw
      have hsigned : (w.signed : ℚ) ≤ w.significand := by exact_mod_cast w.signed_le
      have hexponent : (2 : ℚ) ^ w.exponent ≤ 2 ^ (e - 1) :=
        zpow_le_zpow_right₀ (by norm_num) (by omega)
      calc w.value ≤ w.significand * 2 ^ w.exponent :=
            mul_le_mul_of_nonneg_right hsigned (by positivity)
        _ < 2 ^ 53 * 2 ^ w.exponent := mul_lt_mul_of_pos_right hsignificand (by positivity)
        _ ≤ 2 ^ 53 * 2 ^ (e - 1) := mul_le_mul_of_nonneg_left hexponent (by norm_num)
        _ = 2 ^ (e + 52) := by
          rw [← zpow_natCast, ← zpow_add₀ (by norm_num), Nat.cast_ofNat]
          congr 1
          ring
    have hlt := h.nearest_smaller (by omega) hvalue
    exact ⟨hlt.le, fun heq => absurd heq hlt.ne⟩
  · obtain ⟨k, hk⟩ := Int.le.dest hgreater
    have hvalue : w.value = (w.signed * 2 ^ k : Int) * 2 ^ e := by
      rw [Binary.value, ← hk, add_comm e, zpow_add₀ (by norm_num), zpow_natCast, ← mul_assoc]
      push_cast
      rfl
    rw [hvalue]
    exact h.nearest_multiple _

end Rounded

/-! ### Reading the bits -/

theorem toBits_ofBits {u : UInt64} (h : Format.binary64.Valid u.toBitVec) :
    (Float.ofBits u).toBits = u :=
  UInt64.eq_of_toBitVec_eq (pack_unpack_bits _ h)

theorem read_ofBits {bits : Nat} (h : bits < 2047 * 2 ^ 52) :
    read (Float.ofBits (UInt64.ofNat bits)) = readBits bits := by
  obtain ⟨htoNat, hvalid⟩ := valid_ofNat h
  rw [read, toBits_ofBits hvalid]
  exact congrArg readBits htoNat

theorem readBits_subnormal {bits : Nat} (h : bits < 2 ^ 52) :
    readBits bits = .finite ⟨false, bits, -1074⟩ := by
  have hsign : bits / signBit % 2 = 0 := by
    rw [signBit]
    omega
  have hbiased : bits / fractionSize % 2048 = 0 := by
    rw [fractionSize]
    omega
  have hfraction : bits % fractionSize = bits := Nat.mod_eq_of_lt h
  rw [readBits, hsign, hbiased, hfraction]
  rfl

theorem readBits_normal {bits : Nat} (hlo : 2 ^ 52 ≤ bits) (hhi : bits < 2047 * 2 ^ 52) :
    readBits bits = .finite ⟨false, bits % 2 ^ 52 + 2 ^ 52, (bits / 2 ^ 52 : Nat) - 1075⟩ := by
  have hsign : bits / signBit % 2 = 0 := by
    rw [signBit]
    omega
  have hsize : fractionSize = 2 ^ 52 := rfl
  have hbiased : bits / 2 ^ 52 % 2048 = bits / 2 ^ 52 := by omega
  rw [readBits, hsign, hsize, hbiased, if_neg (by omega), if_neg (by omega)]
  rfl

/-- The double with these bits is the number that the significand and the exponent are. -/
theorem Rounded.exists_read {q : ℚ} {m : Nat} {e : Int} (h : Rounded q m e)
    (hfits : (e + 1074).toNat * 2 ^ 52 + m < 2047 * 2 ^ 52) :
    ∃ v, read (Float.ofBits (UInt64.ofNat ((e + 1074).toNat * 2 ^ 52 + m))) = .finite v ∧
      v.negative = false ∧ v.value = m * 2 ^ e ∧ (m % 2 = 0 → v.significand % 2 = 0) := by
  have hleast := h.least
  have hle := h.significand_le
  rw [read_ofBits hfits]
  rcases Nat.lt_or_ge m (2 ^ 52) with hsmall | hlarge
  · have he : e = -1074 := by
      by_contra hne
      exact absurd (h.le_significand (by omega)) (Nat.not_le.2 hsmall)
    rw [he, show ((-1074 + 1074 : Int)).toNat * 2 ^ 52 + m = m by simp, readBits_subnormal hsmall]
    exact ⟨_, rfl, rfl, rfl, id⟩
  · rw [readBits_normal (by omega) hfits]
    refine ⟨_, rfl, rfl, ?_, ?_⟩
    -- A significand of 54 bits is the next power of two.
    · rcases Nat.lt_or_eq_of_le hle with hlt | heq
      · have hsignificand : ((e + 1074).toNat * 2 ^ 52 + m) % 2 ^ 52 + 2 ^ 52 = m := by omega
        have hexponent : (((e + 1074).toNat * 2 ^ 52 + m) / 2 ^ 52 : Nat) - (1075 : Int) = e := by omega
        rw [hsignificand, hexponent]
        rfl
      · have hsignificand : ((e + 1074).toNat * 2 ^ 52 + m) % 2 ^ 52 + 2 ^ 52 = 2 ^ 52 := by omega
        have hexponent : (((e + 1074).toNat * 2 ^ 52 + m) / 2 ^ 52 : Nat) - (1075 : Int) = 1 + e := by
          omega
        have hpower : ((2 ^ 53 : Nat) : ℚ) = (2 ^ 52 : Nat) * 2 ^ (1 : Int) := by norm_num
        rw [hsignificand, hexponent, heq, hpower, mul_assoc, ← zpow_add₀ (by norm_num)]
        rfl
    · dsimp only
      omega

theorem two_pow_le_overflow : 2 ^ 1023 ≤ overflow := by decide +kernel

theorem overflow_le_two_pow : overflow ≤ 2 ^ 1024 := by decide +kernel

theorem overflow_eq : (overflow : ℚ) = (2 ^ 53 - 1 / 2) * 2 ^ (971 : Int) := by
  have hsplit : (2 : ℚ) ^ (971 : Int) = 2 ^ 970 * 2 := by
    rw [← pow_succ]
    exact zpow_natCast 2 971
  rw [overflow, hsplit, Nat.cast_mul, Nat.cast_pow, Nat.cast_ofNat]
  generalize (2 : ℚ) ^ 970 = power
  norm_num
  ring

/-- The bits are those of an infinity exactly from the overflow on. -/
theorem Rounded.fits_iff {q : ℚ} {m : Nat} {e : Int} (h : Rounded q m e) :
    (e + 1074).toNat * 2 ^ 52 + m < 2047 * 2 ^ 52 ↔ q < overflow := by
  have hleast := h.least
  have hle := h.significand_le
  have hone : (1 : ℚ) ≤ 2 := by norm_num
  rcases lt_trichotomy e 971 with hlow | rfl | hhigh
  · refine iff_of_true (by omega) ?_
    calc q < 2 ^ (e + 53) := h.below
      _ ≤ 2 ^ ((1023 : Nat) : Int) := zpow_le_zpow_right₀ hone (by omega)
      _ = (2 ^ 1023 : Nat) := by rw [zpow_natCast, Nat.cast_pow, Nat.cast_ofNat]
      _ ≤ overflow := Nat.cast_le.2 two_pow_le_overflow
  · have hpos : (0 : ℚ) < 2 ^ (971 : Int) := by positivity
    have hreach := h.rounds.lt_iff (b := 2 ^ 53) rfl
    rw [Nat.cast_pow, Nat.cast_ofNat, div_lt_iff₀ hpos, ← overflow_eq] at hreach
    rw [← hreach]
    omega
  · have hge := h.le_significand (by omega)
    refine iff_of_false (by omega) (not_lt.2 ?_)
    calc (overflow : ℚ) ≤ (2 ^ 1024 : Nat) := Nat.cast_le.2 overflow_le_two_pow
      _ = 2 ^ ((1024 : Nat) : Int) := by rw [zpow_natCast, Nat.cast_pow, Nat.cast_ofNat]
      _ ≤ 2 ^ (e + 52) := zpow_le_zpow_right₀ hone (by omega)
      _ ≤ q := h.normal (by omega)

theorem Rounded.nearest_ofBits {q : ℚ} {m : Nat} {e : Int} (h : Rounded q m e) : Nearest q
    (Float.ofBits (UInt64.ofNat (min ((e + 1074).toNat * 2 ^ 52 + m) (2047 * 2 ^ 52)))) := by
  by_cases hfits : (e + 1074).toNat * 2 ^ 52 + m < 2047 * 2 ^ 52
  · obtain ⟨v, hread, hsign, hvalue, heven⟩ := h.exists_read hfits
    rw [Nat.min_eq_left hfits.le, Nearest, hread]
    refine ⟨hsign, h.fits_iff.1 hfits, fun y w hw => ?_⟩
    obtain ⟨hsignificand, hexponent, -⟩ := read_bounds hw
    obtain ⟨hle, htie⟩ := h.nearest hsignificand hexponent
    rw [hvalue]
    exact ⟨hle, fun heq => (htie heq).imp_right heven⟩
  · have hinfinite : read (Float.ofBits (UInt64.ofNat (2047 * 2 ^ 52))) = .infinite false := by
      decide +kernel
    rw [Nat.min_eq_right (Nat.not_lt.1 hfits), Nearest, hinfinite]
    exact ⟨rfl, not_lt.1 fun hlt => hfits (h.fits_iff.2 hlt)⟩

section
variable (n : Nat) {d : Nat} (hd : 0 < d)
include hd

theorem nearest_spec : Nearest (n / d) (nearest false n d) := by
  obtain ⟨m, e, h, hbits⟩ := nearestBits_spec n hd
  rw [nearest, if_neg Bool.false_ne_true, Nat.zero_add, hbits]
  exact h.nearest_ofBits

/-- Less than half of the least double is rounded to zero. -/
theorem nearest_eq_zero (h : (n : ℚ) / d < 2 ^ (-1075 : Int)) :
    nearest false n d = nearest false 0 1 := by
  obtain ⟨m, e, hrounded, hbits⟩ := nearestBits_spec n hd
  have he : e = -1074 := by
    have hleast := hrounded.least
    by_contra hne
    have hlow := (hrounded.normal (by omega)).trans_lt h
    have := (zpow_lt_zpow_iff_right₀ (by norm_num : (1 : ℚ) < 2)).1 hlow
    omega
  have hm : m = 0 := by
    have hhalf : (n : ℚ) / d / 2 ^ e < 1 / 2 := by
      rw [div_lt_iff₀ (by positivity), he]
      refine h.trans_eq ?_
      rw [show (-1075 : Int) = -1074 - 1 from rfl, zpow_sub_one₀ (by norm_num), mul_comm, one_div]
    have hclose := (abs_le.1 hrounded.rounds.close).2
    have hlt : (m : ℚ) < 1 := by linarith
    have : m < 1 := by exact_mod_cast hlt
    omega
  rw [nearest, nearest, hbits, he, hm, nearestBits_zero, neg_add_cancel, Int.toNat_zero, Nat.zero_mul,
    Nat.zero_add, Nat.zero_min]

end

theorem ofNat_spec (n : Nat) : Nearest n (ofNat n) := by
  have h := nearest_spec n Nat.one_pos
  rwa [Nat.cast_one, div_one] at h

end Reckoner.Double

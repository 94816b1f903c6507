import Mathlib.Data.String.Basic
import Reckoner.Text.Utf8

/-!
# Decoded texts have the size of their bytes

A character that is decoded from some bytes takes as many bytes again, so that the size of a decoded
text is the number of bytes that it was decoded from (`utf8ByteSize_of_decode`). The bounds on the
second byte are what keeps a code from having a shorter form or from being none of a character.
-/

namespace Reckoner.Utf8

variable {a b c d : UInt8} {bytes : List UInt8} {cs done : List Char} {start n : Nat}

theorem utf8Size_ofNat (h : n.isValidChar) :
    (Char.ofNat n).utf8Size =
      if n < 0x80 then 1 else if n < 0x800 then 2 else if n < 0x10000 then 3 else 4 := by
  have hn : (Char.ofNat n).val.toNat = n := by
    rw [Char.ofNat, dif_pos h]
    rfl
  unfold Char.utf8Size
  simp only [UInt32.le_iff_toNat_le, hn]
  show (if n ≤ 127 then 1 else if n ≤ 2047 then 2 else if n ≤ 65535 then 3 else 4) = _
  split_ifs <;> first | rfl | omega

/-! ### Bounds on bytes -/

theorem width_bounds (h : width a = some n) :
    n = 1 ∧ a.toNat < 0x80 ∨ n = 2 ∧ 0xC2 ≤ a.toNat ∧ a.toNat ≤ 0xDF ∨
      n = 3 ∧ 0xE0 ≤ a.toNat ∧ a.toNat ≤ 0xEF ∨ n = 4 ∧ 0xF0 ≤ a.toNat ∧ a.toNat ≤ 0xF4 := by
  unfold width at h
  simp only [UInt8.lt_iff_toNat_lt, UInt8.le_iff_toNat_le, Bool.and_eq_true, decide_eq_true_eq] at h
  change (if a.toNat < 0x80 then some 1 else if 0xC2 ≤ a.toNat ∧ a.toNat ≤ 0xDF then some 2
    else if 0xE0 ≤ a.toNat ∧ a.toNat ≤ 0xEF then some 3
    else if 0xF0 ≤ a.toNat ∧ a.toNat ≤ 0xF4 then some 4 else none) = some n at h
  split_ifs at h <;> cases h <;> omega

theorem isTail_bounds (h : isTail b = true) : 0x80 ≤ b.toNat ∧ b.toNat ≤ 0xBF := by
  simpa [isTail, UInt8.le_iff_toNat_le] using h

theorem isSecond_bounds (h : isSecond a b = true) :
    0x80 ≤ b.toNat ∧ b.toNat ≤ 0xBF ∧ (a.toNat = 0xE0 → 0xA0 ≤ b.toNat) ∧
      (a.toNat = 0xED → b.toNat ≤ 0x9F) ∧ (a.toNat = 0xF0 → 0x90 ≤ b.toNat) ∧
      (a.toNat = 0xF4 → b.toNat ≤ 0x8F) := by
  unfold isSecond isTail at h
  simp only [← UInt8.toNat_inj, UInt8.le_iff_toNat_le] at h
  change (if a.toNat = 0xE0 then decide (0xA0 ≤ b.toNat) && decide (b.toNat ≤ 0xBF)
    else if a.toNat = 0xED then decide (0x80 ≤ b.toNat) && decide (b.toNat ≤ 0x9F)
    else if a.toNat = 0xF0 then decide (0x90 ≤ b.toNat) && decide (b.toNat ≤ 0xBF)
    else if a.toNat = 0xF4 then decide (0x80 ≤ b.toNat) && decide (b.toNat ≤ 0x8F)
    else decide (0x80 ≤ b.toNat) && decide (b.toNat ≤ 0xBF)) = true at h
  split_ifs at h <;> rw [Bool.and_eq_true, decide_eq_true_eq, decide_eq_true_eq] at h <;> omega

/-! ### Sizes of characters -/

theorem utf8Size_one (ha : width a = some 1) : (Char.ofNat a.toNat).utf8Size = 1 := by
  have hwidth := width_bounds ha
  have hvalid : a.toNat.isValidChar := .inl (by omega)
  rw [utf8Size_ofNat hvalid, if_pos (by omega)]

theorem utf8Size_two (ha : width a = some 2) (hb : isSecond a b = true) :
    (Char.ofNat (a.toNat % 32 * 64 + payload b)).utf8Size = 2 := by
  have hwidth := width_bounds ha
  have hsecond := isSecond_bounds hb
  unfold payload
  rw [utf8Size_ofNat (.inl (by omega)), if_neg (by omega), if_pos (by omega)]

theorem utf8Size_three (ha : width a = some 3) (hb : isSecond a b = true) (hc : isTail c = true) :
    (Char.ofNat ((a.toNat % 16 * 64 + payload b) * 64 + payload c)).utf8Size = 3 := by
  have hwidth := width_bounds ha
  have hsecond := isSecond_bounds hb
  have htail := isTail_bounds hc
  unfold payload
  have hvalid : ((a.toNat % 16 * 64 + b.toNat % 64) * 64 + c.toNat % 64).isValidChar := by
    unfold Nat.isValidChar
    omega
  rw [utf8Size_ofNat hvalid, if_neg (by omega), if_neg (by omega), if_pos (by omega)]

theorem utf8Size_four (ha : width a = some 4) (hb : isSecond a b = true) (hc : isTail c = true)
    (hd : isTail d = true) :
    (Char.ofNat (((a.toNat % 8 * 64 + payload b) * 64 + payload c) * 64 + payload d)).utf8Size =
      4 := by
  have hwidth := width_bounds ha
  have hsecond := isSecond_bounds hb
  have hthird := isTail_bounds hc
  have hfourth := isTail_bounds hd
  unfold payload
  have hvalid : (((a.toNat % 8 * 64 + b.toNat % 64) * 64 + c.toNat % 64) * 64 +
      d.toNat % 64).isValidChar := by
    unfold Nat.isValidChar
    omega
  rw [utf8Size_ofNat hvalid, if_neg (by omega), if_neg (by omega), if_neg (by omega)]

/-! ### Texts -/

theorem utf8Len_decodeGo (h : decodeGo bytes start done = .ok cs) :
    String.utf8Len cs = String.utf8Len done + bytes.length := by
  fun_induction decodeGo bytes start done with
  | case1 start done =>
    cases h
    rw [String.utf8Len_reverse]
    rfl
  | case3 a rest start done ha ih =>
    rw [ih h, String.utf8Len_cons, utf8Size_one ha, List.length_cons]
    omega
  | case6 a start done b rest hb _ ha ih =>
    rw [ih h, String.utf8Len_cons, utf8Size_two ha (by simpa using hb), List.length_cons,
      List.length_cons]
    omega
  | case9 a start done b hb c rest hc code _ ha _ ih =>
    rw [ih h, String.utf8Len_cons, utf8Size_three ha (by simpa using hb) (by simpa using hc),
      List.length_cons, List.length_cons, List.length_cons]
    omega
  | case12 a start done n hne ha b hb hne' c hc hne'' d rest hd code ih =>
    have hfour : n = 4 := by
      rcases width_bounds ha with ⟨rfl, -⟩ | ⟨rfl, -⟩ | ⟨rfl, -⟩ | ⟨rfl, -⟩
      · exact (hne rfl).elim
      · exact absurd rfl hne'
      · exact absurd rfl hne''
      · rfl
    rw [ih h, String.utf8Len_cons,
      utf8Size_four (hfour ▸ ha) (by simpa using hb) (by simpa using hc) (by simpa using hd),
      List.length_cons, List.length_cons, List.length_cons, List.length_cons]
    omega
  | _ => exact nomatch h

/-- A decoded text is as large as the bytes that it was decoded from. -/
theorem utf8ByteSize_of_decode (h : decode bytes = .ok cs) :
    (String.ofList cs).utf8ByteSize = bytes.length := by
  rw [String.utf8ByteSize_ofList, utf8Len_decodeGo h]
  exact Nat.zero_add _

end Reckoner.Utf8

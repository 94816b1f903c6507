import Reckoner.Proofs.Sweeping
import Reckoner.Text.Case

/-!
# Lower case of lower case

Lower-casing a text in lower case changes nothing. No row of the table of lower-case forms covers a
code point that a row leads to (`lowerCase_facts`), so every form is its own form (`Settled`), and the
capital sigma, whose form depends on where it stands, is none of them.
-/

namespace Reckoner.Text

/-! ### The rows of the table -/

/-- The first and the last code point of a row, the step between those that it covers, and the form of
the first one. -/
abbrev LowerRow := Nat × Nat × Nat × Nat

namespace LowerRow
variable {r s : LowerRow} {n : Nat}

/-- The row gives a form for the code point. -/
def Covers (r : LowerRow) (n : Nat) : Prop := r.1 ≤ n ∧ n ≤ r.2.1 ∧ (n - r.1) % r.2.2.1 = 0

/-- The form that the row gives for a code point. -/
def form (r : LowerRow) (n : Nat) : Nat := r.2.2.2 + (n - r.1)

/-- The form of the last code point. -/
def lastForm (r : LowerRow) : Nat := r.form r.2.1

/-- The forms of `r` are not covered by `s`: their ranges are apart, or of the even and the odd code
points the forms are the ones and `s` covers the others. -/
def apart (r s : LowerRow) : Bool :=
  r.lastForm.blt s.1 || s.2.1.blt r.2.2.2 ||
    ((r.2.2.1 == 2 || r.1 == r.2.1) && s.2.2.1 == 2 && (r.2.2.2 + s.1) % 2 == 1)

theorem not_covers_form (h : r.apart s = true) (hn : r.Covers n) : ¬ s.Covers (r.form n) := by
  obtain ⟨first, last, step, image⟩ := r
  obtain ⟨first', last', step', image'⟩ := s
  obtain ⟨hlo, hhi, hstep⟩ := hn
  rintro ⟨hlo', hhi', hstep'⟩
  simp only [apart, Bool.or_eq_true, Bool.and_eq_true, Nat.blt_eq, beq_iff_eq] at h
  simp only [lastForm, form] at h hlo hhi hstep hlo' hhi' hstep'
  rcases h with (h | h) | ⟨⟨rfl | rfl, rfl⟩, h⟩
  · omega
  · omega
  · omega
  · omega

/-- The code points from `n` to `m` are of characters, neither special nor ASCII letters but for the `k`
of the Kelvin sign. -/
def ordinary (n m : Nat) : Bool :=
  (0x80 ≤ n || (n == 0x6B && m == 0x6B)) && (m < 0x130 || 0x130 < n) && (m < 0x3A3 || 0x3A3 < n) &&
    (m < 0xD800 || 0xDFFF < n) && m < 0x110000

end LowerRow

theorem lowerCase_facts : ∀ r ∈ Table.lowerCase.toList,
    LowerRow.ordinary r.2.2.2 (LowerRow.lastForm r) = true ∧
      ∀ s ∈ Table.lowerCase.toList, LowerRow.apart r s = true := by
  have hall : (Table.lowerCase.toList.all fun r => LowerRow.ordinary r.2.2.2 (LowerRow.lastForm r) &&
      Table.lowerCase.toList.all (LowerRow.apart r)) = true := by decide +kernel
  intro r hr
  obtain ⟨hordinary, hapart⟩ := Bool.and_eq_true_iff.1 (List.all_eq_true.1 hall r hr)
  exact ⟨hordinary, List.all_eq_true.1 hapart⟩

theorem exists_row_of_searchLower {t : Array LowerRow} {n m : Nat} : ∀ {fuel lo hi : Nat},
    searchLower t n fuel lo hi = some m → ∃ r ∈ t.toList, r.Covers n ∧ m = r.form n
  | 0, _, _, h => nomatch h
  | fuel + 1, lo, hi, h => by
    unfold searchLower at h
    split at h
    · cases h
    · dsimp only at h
      split at h
      · cases h
      · next first last step image hrow =>
        split at h
        · exact exists_row_of_searchLower h
        · split at h
          · exact exists_row_of_searchLower h
          · next hlo hhi =>
            split at h
            · next hstep =>
              cases h
              refine ⟨_, Array.mem_toList_iff.2 (Array.mem_of_getElem? hrow), ⟨?_, ?_, hstep⟩, rfl⟩
              · exact Nat.le_of_not_lt hlo
              · exact Nat.le_of_not_lt hhi
            · cases h

/-! ### Characters that are their own form -/

/-- The character is its lower-case form, wherever it stands. -/
structure Settled (c : Char) : Prop where
  ne_sigma : c.toNat ≠ 0x3A3
  lowerChar_eq : lowerChar c = [c]

theorem settled_of_not_covered {c : Char} (hascii : 0x80 ≤ c.toNat) (hdotted : c.toNat ≠ 0x130)
    (hsigma : c.toNat ≠ 0x3A3) (h : ∀ r ∈ Table.lowerCase.toList, ¬ LowerRow.Covers r c.toNat) :
    Settled c := by
  refine ⟨hsigma, ?_⟩
  unfold lowerChar
  rw [if_neg (Nat.not_lt.2 hascii), if_neg hdotted]
  split
  · next n hn =>
    obtain ⟨r, hr, hcovers, -⟩ := exists_row_of_searchLower hn
    exact absurd hcovers (h r hr)
  · rfl

theorem settled_toLower {c : Char} (h : c.toNat < 0x80) : Settled c.toLower := by
  have hall : ∀ n < 128, (Char.ofNat n).toLower.toNat ≠ 0x3A3 ∧
      lowerChar (Char.ofNat n).toLower = [(Char.ofNat n).toLower] := by decide +kernel
  obtain ⟨hsigma, hlower⟩ := Spelling.of_ascii (P := fun c => c.toLower.toNat ≠ 0x3A3 ∧
    lowerChar c.toLower = [c.toLower]) hall h
  exact ⟨hsigma, hlower⟩

theorem settled_form {r : LowerRow} {n : Nat} (hr : r ∈ Table.lowerCase.toList) (hn : r.Covers n) :
    Settled (Char.ofNat (r.form n)) := by
  obtain ⟨hordinary, hapart⟩ := lowerCase_facts r hr
  have hfirst : r.2.2.2 ≤ r.form n := Nat.le_add_right ..
  have hlast : r.form n ≤ r.lastForm := Nat.add_le_add_left (Nat.sub_le_sub_right hn.2.1 _) _
  simp only [LowerRow.ordinary, Bool.and_eq_true, Bool.or_eq_true, decide_eq_true_eq, beq_iff_eq]
    at hordinary
  obtain ⟨⟨⟨⟨hascii, hdotted⟩, hsigma⟩, hsurrogate⟩, hlimit⟩ := hordinary
  rcases hascii with hascii | ⟨hk, hk'⟩
  · have hvalid : (r.form n).isValidChar := by
      unfold Nat.isValidChar
      omega
    have htoNat : (Char.ofNat (r.form n)).toNat = r.form n := by
      rw [Char.ofNat, dif_pos hvalid]
      rfl
    refine settled_of_not_covered (by omega) (by omega) (by omega) fun s hs => ?_
    rw [htoNat]
    exact LowerRow.not_covers_form (hapart s hs) hn
  · have hform : r.form n = 0x6B := by omega
    rw [hform]
    exact settled_toLower (c := 'k') (by decide)

theorem settled_of_mem_lowerChar {c d : Char} (hc : c.toNat ≠ 0x3A3) (h : d ∈ lowerChar c) :
    Settled d := by
  unfold lowerChar at h
  split at h
  · next hascii =>
    rw [List.mem_singleton.1 h]
    exact settled_toLower hascii
  · next hascii =>
    split at h
    · have hforms : ∀ d ∈ ['i', Char.ofNat 0x307], d.toNat ≠ 0x3A3 ∧ lowerChar d = [d] :=
        List.forall_mem_cons.2 ⟨by decide +kernel, List.forall_mem_singleton.2 (by decide +kernel)⟩
      exact ⟨(hforms d h).1, (hforms d h).2⟩
    · next hdotted =>
      split at h
      · next n hn =>
        obtain ⟨r, hr, hcovers, rfl⟩ := exists_row_of_searchLower hn
        rw [List.mem_singleton.1 h]
        exact settled_form hr hcovers
      · next hnone =>
        rw [List.mem_singleton.1 h]
        refine ⟨hc, ?_⟩
        unfold lowerChar
        rw [if_neg hascii, if_neg hdotted, hnone]

/-! ### Texts -/

theorem lowerGo_of_settled : ∀ {cs : List Char}, (∀ c ∈ cs, Settled c) →
    ∀ before done : List Char, lowerGo cs before done = done.reverse ++ cs
  | [], _, _, done => (List.append_nil _).symm
  | c :: cs, h, before, done => by
    obtain ⟨hc, hcs⟩ := List.forall_mem_cons.1 h
    rw [lowerGo, if_neg hc.ne_sigma, hc.lowerChar_eq, lowerGo_of_settled hcs]
    simp

theorem settled_of_mem_lowerGo : ∀ {cs before done : List Char}, (∀ c ∈ done, Settled c) →
    ∀ c ∈ lowerGo cs before done, Settled c
  | [], _, _, hdone => fun c hc => hdone c (List.mem_reverse.1 hc)
  | c :: cs, before, done, hdone => by
    rw [lowerGo]
    refine settled_of_mem_lowerGo fun d hd => ?_
    rcases List.mem_append.1 hd with hd | hd
    · rw [List.mem_reverse] at hd
      split at hd
      · have hforms : Settled (Char.ofNat 0x3C2) ∧ Settled (Char.ofNat 0x3C3) :=
          ⟨⟨by decide, by decide +kernel⟩, ⟨by decide, by decide +kernel⟩⟩
        split at hd
        · rw [List.mem_singleton.1 hd]
          exact hforms.1
        · rw [List.mem_singleton.1 hd]
          exact hforms.2
      · next hsigma => exact settled_of_mem_lowerChar hsigma hd
    · exact hdone d hd

/-- A text in lower case is its own lower-case form. -/
theorem lowercase_lowercase (s : String) : lowercase (lowercase s) = lowercase s := by
  have hsettled : ∀ c ∈ (lowercase s).toList, Settled c := by
    rw [lowercase, String.toList_ofList]
    exact settled_of_mem_lowerGo (List.forall_mem_nil _)
  rw [lowercase, lowerGo_of_settled hsettled, List.reverse_nil, List.nil_append, String.ofList_toList]

end Reckoner.Text

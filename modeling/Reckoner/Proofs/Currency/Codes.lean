import Reckoner.Currency.RateSet

/-!
# Codes in upper and lower case

A code in upper case has digits and capital letters only. Its lower-case form is a code again, from
which it comes back in upper case, and the lower-case forms of two codes are in the order of the
codes: digits come before letters in both cases.
-/

namespace Reckoner

/-- The code points of digits and capital letters. -/
def codePoints : List Nat := List.range' 48 10 ++ List.range' 65 26

/-- The characters of codes in upper case. -/
def codeChars : List Char := codePoints.map Char.ofNat

theorem toNat_lt_of_isAlphanum {c : Char} (h : c.isAlphanum = true) : c.toNat < 128 := by
  have hle : ∀ {d : Char}, d.toNat < 128 → c.val ≤ d.val → c.toNat < 128 :=
    fun hd hc => Nat.lt_of_le_of_lt (UInt32.le_iff_toNat_le.1 hc) hd
  rcases Bool.or_eq_true_iff.1 h with hletter | hdigit
  · rcases Bool.or_eq_true_iff.1 hletter with hupper | hlower
    · exact hle (d := 'Z') (by decide) (of_decide_eq_true hupper).2
    · exact hle (d := 'z') (by decide) (of_decide_eq_true (Bool.and_eq_true_iff.1 hlower).2)
  · exact hle (d := '9') (by decide) (of_decide_eq_true (Bool.and_eq_true_iff.1 hdigit).2)

theorem toUpper_mem_codeChars {c : Char} (h : c.isAlphanum = true) : c.toUpper ∈ codeChars := by
  have hascii : ∀ n < 128, (Char.ofNat n).isAlphanum = true → (Char.ofNat n).toUpper ∈ codeChars := by
    decide +kernel
  have hupper := hascii c.toNat (toNat_lt_of_isAlphanum h)
  rw [Char.ofNat_toNat] at hupper
  exact hupper h

-- The facts are decided over code points: over characters, all characters there are would be tried.
theorem codeChars_facts : ∀ c ∈ codeChars, c.toNat < 0x80 ∧ c.isAlphanum = true ∧
    c.toLower.isAlphanum = true ∧ c.toLower.toUpper = c :=
  List.forall_mem_map.2 (by decide +kernel)

theorem toLower_lt : ∀ c ∈ codeChars, ∀ d ∈ codeChars, c < d → c.toLower < d.toLower := by
  have hpoints : ∀ m ∈ codePoints, ∀ n ∈ codePoints, Char.ofNat m < Char.ofNat n →
      (Char.ofNat m).toLower < (Char.ofNat n).toLower := by decide +kernel
  exact List.forall_mem_map.2 fun m hm => List.forall_mem_map.2 (hpoints m hm)

/-- A code in upper case. -/
structure IsUpperCode (code : String) : Prop where
  isCode : isCode code = true
  chars : ∀ c ∈ code.toList, c ∈ codeChars

theorem isCode_iff {code : String} :
    isCode code = true ↔ code.toList ≠ [] ∧ code.toList.length ≤ 10 ∧
      ∀ c ∈ code.toList, c.isAlphanum = true := by
  simp [isCode, and_assoc]

theorem isUpperCode_asciiUpper {code : String} (h : isCode code = true) :
    IsUpperCode (Text.asciiUpper code) := by
  obtain ⟨hne, hlength, hchars⟩ := isCode_iff.1 h
  have hupper : ∀ c ∈ (Text.asciiUpper code).toList, c ∈ codeChars := by
    intro c hc
    rw [Text.asciiUpper, String.toList_ofList] at hc
    obtain ⟨d, hd, rfl⟩ := List.mem_map.1 hc
    exact toUpper_mem_codeChars (hchars d hd)
  refine ⟨isCode_iff.2 ⟨?_, ?_, fun c hc => (codeChars_facts c (hupper c hc)).2.1⟩, hupper⟩
  · rw [Text.asciiUpper, String.toList_ofList]
    exact fun hnil => hne (List.map_eq_nil_iff.1 hnil)
  · rw [Text.asciiUpper, String.toList_ofList, List.length_map]
    exact hlength

namespace Text

theorem lowerGo_ascii : ∀ {cs : List Char}, (∀ c ∈ cs, c.toNat < 0x80) →
    ∀ before done : List Char, lowerGo cs before done = done.reverse ++ cs.map Char.toLower
  | [], _, before, done => by simp [lowerGo]
  | c :: cs, h, before, done => by
    obtain ⟨hc, hcs⟩ := List.forall_mem_cons.1 h
    have hsigma : c.toNat ≠ 0x3A3 := by omega
    rw [lowerGo, if_neg hsigma, lowerChar, if_pos hc, lowerGo_ascii hcs]
    simp

end Text

namespace IsUpperCode
variable {code other : String}

theorem toList_lowercase (h : IsUpperCode code) :
    (Text.lowercase code).toList = code.toList.map Char.toLower := by
  have hascii : ∀ c ∈ code.toList, c.toNat < 0x80 := fun c hc =>
    (codeChars_facts c (h.chars c hc)).1
  rw [Text.lowercase, String.toList_ofList, Text.lowerGo_ascii hascii]
  rfl

theorem isCode_lowercase (h : IsUpperCode code) : Reckoner.isCode (Text.lowercase code) = true := by
  obtain ⟨hne, hlength, -⟩ := isCode_iff.1 h.isCode
  rw [isCode_iff, h.toList_lowercase]
  refine ⟨fun hnil => hne (List.map_eq_nil_iff.1 hnil), by rwa [List.length_map], fun c hc => ?_⟩
  obtain ⟨d, hd, rfl⟩ := List.mem_map.1 hc
  exact (codeChars_facts d (h.chars d hd)).2.2.1

theorem asciiUpper_lowercase (h : IsUpperCode code) :
    Text.asciiUpper (Text.lowercase code) = code := by
  rw [Text.asciiUpper, h.toList_lowercase, List.map_map]
  have hmap : code.toList.map (Char.toUpper ∘ Char.toLower) = code.toList :=
    (List.map_congr_left fun c hc => (codeChars_facts c (h.chars c hc)).2.2.2).trans (List.map_id _)
  rw [hmap, String.ofList_toList]

theorem asciiUpper (h : IsUpperCode code) : Text.asciiUpper code = code := by
  have hupper : ∀ c ∈ codeChars, c.toUpper = c := List.forall_mem_map.2 (by decide +kernel)
  have hmap : code.toList.map Char.toUpper = code.toList :=
    (List.map_congr_left fun c hc => hupper c (h.chars c hc)).trans (List.map_id _)
  rw [Text.asciiUpper, hmap, String.ofList_toList]

theorem map_toLower_lt : ∀ {cs ds : List Char}, (∀ c ∈ cs, c ∈ codeChars) →
    (∀ d ∈ ds, d ∈ codeChars) → cs < ds → cs.map Char.toLower < ds.map Char.toLower
  | [], [], _, _, h => absurd h (List.lt_irrefl [])
  | [], d :: ds, _, _, _ => List.nil_lt_cons ..
  | c :: cs, [], _, _, h => absurd h (List.not_lt_nil _)
  | c :: cs, d :: ds, hcs, hds, h => by
    obtain ⟨hc, hcs⟩ := List.forall_mem_cons.1 hcs
    obtain ⟨hd, hds⟩ := List.forall_mem_cons.1 hds
    rw [List.map_cons, List.map_cons, List.cons_lt_cons_iff]
    rcases List.cons_lt_cons_iff.1 h with hlt | ⟨heq, hlt⟩
    · exact .inl (toLower_lt c hc d hd hlt)
    · exact .inr ⟨congrArg Char.toLower heq, map_toLower_lt hcs hds hlt⟩

/-- Lower-case forms are in the order of the codes. -/
theorem lowercase_lt (h : IsUpperCode code) (hother : IsUpperCode other) (hlt : code < other) :
    Text.lowercase code < Text.lowercase other := by
  rw [String.lt_iff, h.toList_lowercase, hother.toList_lowercase]
  exact map_toLower_lt h.chars hother.chars (String.lt_iff.1 hlt)

end IsUpperCode

end Reckoner

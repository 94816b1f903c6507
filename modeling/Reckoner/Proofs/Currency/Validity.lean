import Reckoner.Proofs.Currency.Payload

/-!
# Sets of rates that are made, and the words for their currencies

A set is made from given rates, from a payload or from the record of the settings, and the second and
third way come down to the first (`Valid.exists_make`). So every set has its base at the rate one, codes
of capital letters and digits only, and positive rates; its record makes the same set again; and an
amount is converted between any two of its codes (`invariant_of_valid`).

The code of a set is a word for its currency exactly if it has no digit (`Valid.resolve?_eq`): of the
codes that are not known without rates only those in capital letters are recognized, so that whatever a
word names is in capital letters (`of_resolve?_eq_some`).
-/

namespace Reckoner

/-- One to ten characters, all of them capital ASCII letters or digits. -/
def IsCapitalCode (code : String) : Prop :=
  1 ≤ code.toList.length ∧ code.toList.length ≤ 10 ∧
    ∀ c ∈ code.toList, c.isUpper = true ∨ c.isDigit = true

theorem IsUpperCode.isCapitalCode {code : String} (h : IsUpperCode code) : IsCapitalCode code := by
  obtain ⟨hne, hlength, -⟩ := isCode_iff.1 h.isCode
  have hchars : ∀ c ∈ codeChars, c.isUpper = true ∨ c.isDigit = true :=
    List.forall_mem_map.2 (by decide +kernel)
  exact ⟨List.length_pos_iff.2 hne, hlength, fun c hc => hchars c (h.chars c hc)⟩

namespace RateSet
variable {s : RateSet} {code a b : String}

theorem contains_iff : s.contains code = true ↔ ∃ rate, s.rate? code = some rate :=
  Option.isSome_iff_exists

/-- The ways in which a set of rates comes about. -/
inductive Valid (s : RateSet) : Prop where
  | make {date : Date} {base : String} {rates : List (String × Float)}
      (h : RateSet.make date base rates = .ok s)
  | ofJson {payload : String} (h : RateSet.ofJson payload = .ok s)
  | toSet {r : RateRecord} (h : r.toSet = .ok s)

namespace Valid

theorem exists_make (h : s.Valid) : ∃ date base rates, RateSet.make date base rates = .ok s := by
  rcases h with h | h | h
  · exact ⟨_, _, _, h⟩
  · obtain ⟨date, base, rates, -, hmake⟩ := exists_make_of_ofJson h
    exact ⟨date, base, rates, hmake⟩
  · exact ⟨_, _, _, h⟩

theorem sound (h : s.Valid) : s.Sound := by
  obtain ⟨date, base, rates, hmake⟩ := h.exists_make
  exact sound_of_make hmake

end Valid

/-- A conversion fails between different codes one of which is missing, and names the first one that
is. -/
theorem convert_eq_error_iff (s : RateSet) (x : Float) (a b : String) (f : Failure) :
    (s.convert x a b).mapError .missingRate = .error f ↔
      a ≠ b ∧ (s.contains a = false ∧ f = .missingRate a ∨
        s.contains a = true ∧ s.contains b = false ∧ f = .missingRate b) := by
  have hcontains : ∀ code, s.contains code = (s.rate? code).isSome := fun _ => rfl
  rw [hcontains, hcontains, convert]
  by_cases hab : a = b
  · rw [if_pos hab]
    simp [hab, Except.mapError]
  · rw [if_neg hab]
    cases s.rate? a with
    | none => simp [hab, Except.mapError, @eq_comm _ f]
    | some x =>
      cases s.rate? b with
      | none => simp [hab, Except.mapError, @eq_comm _ f]
      | some y => simp [Except.mapError]

/-- What every set of rates has, whichever way it was made. -/
theorem invariant_of_valid (h : s.Valid) :
    s.rate? s.base = some 1 ∧
    (∀ code rate, s.rate? code = some rate →
      IsCapitalCode code ∧ rate.isFinite = true ∧ 0 < rate) ∧
    (RateRecord.ofSet s).toSet = .ok s ∧
    ∀ x a b (f : Failure), (s.convert x a b).mapError .missingRate = .error f ↔
      a ≠ b ∧ (s.contains a = false ∧ f = .missingRate a ∨
        s.contains a = true ∧ s.contains b = false ∧ f = .missingRate b) := by
  have hs := h.sound
  refine ⟨hs.own, fun code rate hrate => ⟨(hs.code hrate).isCapitalCode, hs.rate hrate⟩, ?_, ?_⟩
  · exact hs.make_entries
  · exact convert_eq_error_iff s

/-- Two keys that are the base in upper case give way to the rate one. -/
theorem invariant_of_valid_dollar :
    ∃ s, RateSet.make ⟨2025, 1, 31⟩ "usd" [("Usd", 7), ("eur", 0.5), ("USD", 3)] = .ok s ∧
      s.rate? "USD" = some 1 ∧ (RateRecord.ofSet s).toSet = .ok s := by
  have hmake : RateSet.make ⟨2025, 1, 31⟩ "usd" [("Usd", 7), ("eur", 0.5), ("USD", 3)] =
      .ok ⟨⟨2025, 1, 31⟩, "USD", (Dictionary.empty.insert "EUR" 0.5).insert "USD" 1⟩ := rfl
  obtain ⟨hbase, -, hrecord, -⟩ := invariant_of_valid (.make hmake)
  exact ⟨_, hmake, hbase, hrecord⟩

/-! ### Words for currencies -/

section
open Currency (resolve? known words)

theorem Valid.isUpperCode (h : s.Valid) (hcode : s.contains code = true) : IsUpperCode code := by
  obtain ⟨rate, hrate⟩ := contains_iff.1 hcode
  exact h.sound.code hrate

/-- Only small letters make a word for a currency. -/
theorem find?_words (h : IsUpperCode code) : words.find? (·.1 == code) = none := by
  have hsmall : ∀ w ∈ words, w.1.toList.any (fun c => !codeChars.contains c) = true :=
    List.all_iff_forall_prop.1 (by decide +kernel)
  refine List.find?_eq_none.2 fun w hw heq => ?_
  obtain ⟨c, hc, hno⟩ := List.any_eq_true.1 (hsmall w hw)
  rw [eq_of_beq heq] at hc
  simp [h.chars c hc] at hno

theorem isUpper_of_known (h : code ∈ known) : code.toList.all Char.isUpper = true := by
  have hall : ∀ w ∈ known, w.toList.all Char.isUpper = true :=
    List.all_iff_forall_prop.1 (by decide +kernel)
  exact hall code h

/-- A code of the set is a word for its currency if it is all capital letters. -/
theorem Valid.resolve?_eq (h : s.Valid) (hcode : s.contains code = true) :
    resolve? code (some s) = if code.toList.all Char.isUpper then some code else none := by
  have hupper := h.isUpperCode hcode
  rw [resolve?, find?_words hupper, hupper.asciiUpper]
  by_cases hletters : code.toList.all Char.isUpper = true
  · simp [hletters, hcode]
  · have hunknown : code ∉ known := mt isUpper_of_known hletters
    simp [hletters, hunknown]

theorem toUpper_of_isUpper {c : Char} (h : c.isUpper = true) : c.toUpper = c := by
  have hle : c.val ≤ 'Z'.val := (of_decide_eq_true h).2
  exact dif_neg fun hsmall => absurd (UInt32.le_trans hsmall.1 hle) (by decide)

theorem asciiUpper_of_isUpper {word : String} (h : word.toList.all Char.isUpper = true) :
    Text.asciiUpper word = word := by
  have hmap : word.toList.map Char.toUpper = word.toList :=
    (List.map_congr_left fun c hc => toUpper_of_isUpper (List.all_eq_true.1 h c hc)).trans
      (List.map_id _)
  rw [Text.asciiUpper, hmap, String.ofList_toList]

/-- A word names a currency in capital letters, one that is known or in the rates. -/
theorem of_resolve?_eq_some {word : String} {rates : Option RateSet}
    (h : resolve? word rates = some code) : code.toList.all Char.isUpper = true ∧
      (code ∈ known ∨ ∃ set, rates = some set ∧ set.contains code = true) := by
  have hwords : ∀ w ∈ words, w.2 ∈ known := by decide +kernel
  have hknown : code ∈ known → code.toList.all Char.isUpper = true ∧
      (code ∈ known ∨ ∃ set, rates = some set ∧ set.contains code = true) :=
    fun hmem => ⟨isUpper_of_known hmem, .inl hmem⟩
  unfold resolve? at h
  split at h
  · next w hw =>
    cases h
    exact hknown (hwords w (List.mem_of_find?_eq_some hw))
  · dsimp only at h
    split at h
    · next hor =>
      cases h
      simp only [Bool.or_eq_true, Bool.and_eq_true, List.contains_iff_mem, Option.any_eq_true] at hor
      rcases hor with hmem | ⟨hupper, set, hset, hcontains⟩
      · exact hknown hmem
      · rw [asciiUpper_of_isUpper hupper] at hcontains ⊢
        exact ⟨hupper, .inr ⟨set, hset, hcontains⟩⟩
    · cases h

/-- A code of a set is a word for its currency if and only if it consists of capital letters, and
otherwise there is no word for it at all: what a word names is in capital letters, and a known currency
or in the rates. -/
theorem resolve?_of_valid (h : s.Valid) :
    (∀ code, s.contains code = true →
      resolve? code (some s) = if code.toList.all Char.isUpper then some code else none) ∧
    ∀ word rates code, resolve? word rates = some code → code.toList.all Char.isUpper = true ∧
      (code ∈ known ∨ ∃ set, rates = some set ∧ set.contains code = true) :=
  ⟨fun _ => h.resolve?_eq, fun _ _ _ => of_resolve?_eq_some⟩

/-- Gold is named by its code as soon as it has a rate. -/
theorem resolve?_of_valid_gold :
    ∃ s, RateSet.make ⟨2025, 1, 31⟩ "usd" [("xau", 0.5)] = .ok s ∧ s.contains "XAU" = true ∧
      "XAU" ∉ known ∧ resolve? "XAU" (some s) = some "XAU" := by
  have hmake : RateSet.make ⟨2025, 1, 31⟩ "usd" [("xau", 0.5)] =
      .ok ⟨⟨2025, 1, 31⟩, "USD", (Dictionary.empty.insert "XAU" 0.5).insert "USD" 1⟩ := rfl
  have hcontains : RateSet.contains
      ⟨⟨2025, 1, 31⟩, "USD", (Dictionary.empty.insert "XAU" 0.5).insert "USD" 1⟩ "XAU" = true := rfl
  exact ⟨_, hmake, hcontains, by decide, (resolve?_of_valid (.make hmake)).1 "XAU" hcontains⟩

/-- A code with a digit is accepted and has a rate, and it is no word for its currency. -/
theorem resolve?_of_valid_digit :
    ∃ s, RateSet.make ⟨2025, 1, 31⟩ "usd" [("a1", 0.5)] = .ok s ∧ s.rate? "A1" = some 0.5 ∧
      resolve? "A1" (some s) = none := by
  have hmake : RateSet.make ⟨2025, 1, 31⟩ "usd" [("a1", 0.5)] =
      .ok ⟨⟨2025, 1, 31⟩, "USD", (Dictionary.empty.insert "A1" 0.5).insert "USD" 1⟩ := rfl
  exact ⟨_, hmake, rfl, by decide +kernel⟩

end

end RateSet

end Reckoner

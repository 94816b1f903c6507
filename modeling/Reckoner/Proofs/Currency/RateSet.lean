import Reckoner.Proofs.Currency.Codes
import Reckoner.Proofs.Finite

/-!
# What a set of rates holds

Making a set of rates succeeds on codes and positive rates, at least one of them, and gives their
table in upper case with the rate one for the base (`make_eq_ok_iff`). `Sound` is what every set has
that was made so.
-/

namespace Reckoner

theorem normalizeCode_eq_ok_iff {code upper : String} :
    normalizeCode code = .ok upper ↔ isCode code = true ∧ upper = Text.asciiUpper code := by
  unfold normalizeCode
  split
  · next h => simp [h, eq_comm]
  · next h => simp [h]

namespace RateSet

/-- A code with a rate that may stand in a set. -/
def Admits (e : String × Float) : Prop :=
  isCode e.1 = true ∧ e.2.isFinite = true ∧ 0 < e.2

/-- The table of rates, with their codes in upper case; of rates for one code the last counts. -/
def entered (table : Dictionary Float) (rates : List (String × Float)) : Dictionary Float :=
  rates.foldl (fun d e => d.insert (Text.asciiUpper e.1) e.2) table

theorem enter_eq_ok_iff : ∀ {rates : List (String × Float)} {table table' : Dictionary Float},
    enter table rates = .ok table' ↔ (∀ e ∈ rates, Admits e) ∧ table' = entered table rates
  | [], table, table' => by simp [enter, entered, eq_comm]
  | (code, rate) :: rest, table, table' => by
    unfold enter
    cases hcode : normalizeCode code with
    | error e =>
      have hno : isCode code ≠ true := fun h =>
        nomatch hcode.symm.trans (normalizeCode_eq_ok_iff.2 ⟨h, rfl⟩)
      exact ⟨nofun, fun h => absurd (h.1 _ (List.mem_cons_self ..)).1 hno⟩
    | ok upper =>
      obtain ⟨hvalid, rfl⟩ := normalizeCode_eq_ok_iff.1 hcode
      dsimp only
      split
      · next hrate =>
        rw [Bool.and_eq_true, decide_eq_true_eq] at hrate
        have hfirst : Admits (code, rate) := ⟨hvalid, hrate⟩
        rw [enter_eq_ok_iff, List.forall_mem_cons, and_iff_right hfirst]
        rfl
      · next hrate =>
        rw [Bool.and_eq_true, decide_eq_true_eq] at hrate
        exact ⟨nofun, fun h => absurd (h.1 _ (List.mem_cons_self ..)).2 hrate⟩

theorem entries_insert_ne_nil (d : Dictionary Float) (key : String) (x : Float) :
    (d.insert key x).entries ≠ [] := by
  intro h
  have hget : (d.insert key x).get? key = some x := Dictionary.get?_insert_self ..
  rw [Dictionary.get?, h] at hget
  cases hget

theorem entries_entered_ne_nil : ∀ (rates : List (String × Float)) {table : Dictionary Float},
    table.entries ≠ [] → (entered table rates).entries ≠ []
  | [], _, h => h
  | e :: rest, table, _ => entries_entered_ne_nil rest (entries_insert_ne_nil table _ e.2)

theorem isEmpty_entered {rates : List (String × Float)} :
    (entered .empty rates).entries.isEmpty = true ↔ rates = [] := by
  rw [List.isEmpty_iff]
  cases rates with
  | nil => exact ⟨fun _ => rfl, fun _ => rfl⟩
  | cons e rest =>
    exact ⟨fun h => absurd h (entries_entered_ne_nil rest (entries_insert_ne_nil .empty _ e.2)),
      nofun⟩

theorem make_eq_ok_iff {date : Date} {base : String} {rates : List (String × Float)} {s : RateSet} :
    make date base rates = .ok s ↔
      isCode base = true ∧ (∀ e ∈ rates, Admits e) ∧ rates ≠ [] ∧
        s = ⟨date, Text.asciiUpper base,
          (entered .empty rates).insert (Text.asciiUpper base) 1⟩ := by
  unfold make
  cases hbase : normalizeCode base with
  | error e =>
    have hno : isCode base ≠ true := fun h =>
      nomatch hbase.symm.trans (normalizeCode_eq_ok_iff.2 ⟨h, rfl⟩)
    exact ⟨nofun, fun h => absurd h.1 hno⟩
  | ok upper =>
    obtain ⟨hcode, rfl⟩ := normalizeCode_eq_ok_iff.1 hbase
    dsimp only
    cases henter : enter .empty rates with
    | error e =>
      have hno : ¬ ∀ e ∈ rates, Admits e := fun h =>
        nomatch henter.symm.trans (enter_eq_ok_iff.2 ⟨h, rfl⟩)
      exact ⟨nofun, fun h => absurd h.2.1 hno⟩
    | ok table =>
      obtain ⟨hrates, rfl⟩ := enter_eq_ok_iff.1 henter
      dsimp only
      split
      · next h => exact ⟨nofun, fun hs => absurd (isEmpty_entered.1 h) hs.2.2.1⟩
      · next h =>
        rw [isEmpty_entered] at h
        rw [and_iff_right hcode, and_iff_right hrates, and_iff_right h, Except.ok.injEq, eq_comm]

/-- Codes are in upper case, rates are positive, and the base has the rate one. -/
structure Sound (s : RateSet) : Prop where
  base : IsUpperCode s.base
  own : s.rates.get? s.base = some 1
  code : ∀ {code rate}, s.rates.get? code = some rate → IsUpperCode code
  rate : ∀ {code rate}, s.rates.get? code = some rate → rate.isFinite = true ∧ 0 < rate

theorem get?_entered {rates : List (String × Float)} {table : Dictionary Float} {code : String}
    {rate : Float} (h : (entered table rates).get? code = some rate) :
    (∃ e ∈ rates, code = Text.asciiUpper e.1 ∧ rate = e.2) ∨ table.get? code = some rate := by
  induction rates generalizing table with
  | nil => exact .inr h
  | cons e rates ih =>
    rcases ih h with ⟨e', he', heq⟩ | htable
    · exact .inl ⟨e', List.mem_cons_of_mem _ he', heq⟩
    · rw [Dictionary.get?_insert] at htable
      split at htable
      · next hcode =>
        cases htable
        exact .inl ⟨e, List.mem_cons_self .., hcode.symm, rfl⟩
      · exact .inr htable

theorem sound_of_make {date : Date} {base : String} {rates : List (String × Float)} {s : RateSet}
    (h : make date base rates = .ok s) : s.Sound := by
  obtain ⟨hbase, hrates, -, rfl⟩ := make_eq_ok_iff.1 h
  have hentry : ∀ {code rate}, ((entered .empty rates).insert (Text.asciiUpper base) 1).get? code =
      some rate → IsUpperCode code ∧ rate.isFinite = true ∧ 0 < rate := by
    intro code rate hget
    rw [Dictionary.get?_insert] at hget
    split at hget
    · next hcode =>
      cases hget
      exact ⟨hcode ▸ isUpperCode_asciiUpper hbase, by decide +kernel⟩
    · rcases get?_entered hget with ⟨e, he, rfl, rfl⟩ | hnone
      · obtain ⟨hcode, hrate⟩ := hrates e he
        exact ⟨isUpperCode_asciiUpper hcode, hrate⟩
      · exact nomatch hnone
  exact ⟨isUpperCode_asciiUpper hbase, Dictionary.get?_insert_self .., fun hget => (hentry hget).1,
    fun hget => (hentry hget).2⟩

end RateSet

theorem RateRecord.date_of_toSet {r : RateRecord} {s : RateSet} (h : r.toSet = .ok s) :
    s.date = r.date := by
  obtain ⟨-, -, -, rfl⟩ := RateSet.make_eq_ok_iff.1 h
  rfl

end Reckoner

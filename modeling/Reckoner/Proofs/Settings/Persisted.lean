import Reckoner.Proofs.Settings.Saved

/-!
# Files into which rates were put

Putting rates into a file keeps the settings that it holds, with their doubles reread
(`read_saved`). The new text is never malformed, but it may be longer than a file that is read: it
has the size of the settings without rates and of the record of the rates (`size_withRates`), and
only reading compares that with the limit (`ofFile_persist`).
-/

namespace Reckoner

open String (utf8Len)

namespace Settings
variable {path : String} {content : Option String} {rates : RateSet} {text : String}

/-- The settings without rates. -/
def withoutRates (s : Settings) : Settings := { s with rates := none, ratesUpdated := none }

/-- The bytes of the members for rates. -/
def recordSize (rates : RateSet) : Nat :=
  Json.lineSize 1 ("currency_rates", (RateRecord.ofSet rates).json) +
    Json.lineSize 1 ("rates_updated_at", rates.date.json)

theorem utf8ByteSize_text (s : Settings) : s.text.utf8ByteSize = utf8Len s.json.indented :=
  String.utf8ByteSize_ofList _

/-- With rates the text is longer by the members for them. -/
theorem size_withRates (s : Settings) (rates : RateSet) :
    (s.withRates rates).text.utf8ByteSize = s.withoutRates.text.utf8ByteSize + recordSize rates := by
  rw [utf8ByteSize_text, utf8ByteSize_text]
  unfold json Json.indented
  simp only [List.cons_append, Json.utf8Len_indentedAt]
  simp only [withRates, withoutRates, Json.member?, recordSize, List.nil_append, List.cons_append,
    Nat.zero_add, List.map_cons, List.map_nil, List.sum_cons, List.sum_nil]
  omega

/-! ### Persisting -/

/-- The settings that a file holds before rates are put into it; a missing file counts as empty. -/
def held (path : String) : Option String → Except SettingsFault Settings
  | none => (checkPath path).map fun _ => standard
  | some text => ofFile path (some text)

theorem persist_eq (path : String) (content : Option String) (rates : RateSet) :
    persist path content rates = (held path content).map fun s => (s.withRates rates).text := by
  cases content with
  | none =>
    rw [persist, held]
    cases checkPath path <;> rfl
  | some text =>
    rw [persist, held, ofFile]
    cases checkPath path with
    | error e => rfl
    | ok u =>
      by_cases hlarge : greatestFile < text.utf8ByteSize
      · simp only [hlarge, if_true]
        rfl
      · simp only [hlarge, if_false]
        cases read text <;> rfl

theorem dated_withRates (s : Settings) (h : rates.Accepted) : (s.withRates rates).Dated := by
  obtain ⟨-, hvalid⟩ := h.sound_valid
  refine ⟨?_, ?_⟩
  · rintro r ⟨⟩
    exact hvalid
  · rintro d ⟨⟩
    exact hvalid

theorem ofFile_eq (path text : String) : ofFile path (some text) = (checkPath path).bind fun _ =>
    if greatestFile < text.utf8ByteSize then .error (.fileTooLarge text.utf8ByteSize)
    else read text := rfl

theorem checkPath_of_held {c : Settings} (h : held path content = .ok c) :
    checkPath path = .ok () := by
  cases hpath : checkPath path with
  | ok u => rfl
  | error e =>
    cases content with
    | none =>
      rw [held, hpath] at h
      exact nomatch h
    | some text =>
      rw [held, ofFile_eq, hpath] at h
      exact nomatch h

theorem exists_held (h : persist path content rates = .ok text) :
    ∃ c, held path content = .ok c ∧ text = (c.withRates rates).text := by
  rw [persist_eq] at h
  cases hheld : held path content with
  | error e => exact nomatch hheld ▸ h
  | ok c =>
    rw [hheld] at h
    exact ⟨c, rfl, (Except.ok.inj h).symm⟩

theorem read_withRates (c : Settings) (h : rates.Accepted) :
    read (c.withRates rates).text = .ok (c.withRates rates).reread :=
  read_text (c.dated_withRates h)

/-- The record of rates whose doubles come back gives the set again. -/
theorem toSet_reread (c : Settings) (h : rates.Accepted) (hr : rates.ReadsBack) :
    (c.withRates rates).reread.rates.map RateRecord.toSet = some (.ok rates) := by
  have hrecord : (RateRecord.ofSet rates).reread = .ofSet rates :=
    RateRecord.reread_eq_self_iff.2 fun e he => hr e.1 e.2 (Dictionary.get?_of_mem he)
  show some ((RateRecord.ofSet rates).reread.toSet) = _
  rw [hrecord]
  exact congrArg some h.sound_valid.1.make_entries

theorem read_text_iff {s : Settings} (h : s.Dated) : read s.text = .ok s ↔ s.ReadsBack := by
  rw [read_text h, Except.ok.injEq, reread_eq_self_iff]

/-- Saved settings come back with their doubles reread, so that they are the same if and only if each
double is read from its text; whatever was read from a file can be saved so. Putting rates into a
file keeps everything else that it holds, to that extent, and its record gives the rates again if
their doubles come back. -/
theorem read_saved (path : String) (content : Option String) (hrates : rates.Accepted) :
    (∀ s : Settings, s.Dated → (∀ x ∈ s.doubles, x.isFinite = true) →
      read s.text = .ok s.reread ∧ (read s.text = .ok s ↔ s.ReadsBack)) ∧
    (∀ source s, read source = .ok s →
      read s.text = .ok s.reread ∧ (read s.text = .ok s ↔ s.ReadsBack)) ∧
    ∀ c, held path content = .ok c →
      ∃ text, persist path content rates = .ok text ∧
        read text = .ok (c.withRates rates).reread ∧
        (read text = .ok (c.withRates rates) ↔ (c.withRates rates).ReadsBack) ∧
        (rates.ReadsBack →
          (c.withRates rates).reread.rates.map RateRecord.toSet = some (.ok rates)) := by
  refine ⟨fun s hs _ => ⟨read_text hs, read_text_iff hs⟩, fun source s hsource => ?_,
    fun c hc => ?_⟩
  · have hs := dated_of_read hsource
    exact ⟨read_text hs, read_text_iff hs⟩
  · have hpersist : persist path content rates = .ok (c.withRates rates).text := by
      rw [persist_eq, hc]
      rfl
    exact ⟨_, hpersist, read_withRates c hrates, read_text_iff (c.dated_withRates hrates),
      toSet_reread c hrates⟩

/-- Rates with a half, which comes back. -/
def euroRates : RateSet :=
  ⟨⟨2025, 1, 31⟩, "USD", (Dictionary.empty.insert "EUR" 0.5).insert "USD" 1⟩

theorem accepted_euroRates : euroRates.Accepted :=
  .inr ⟨⟨2025, 1, 31⟩, "usd", [("eur", 0.5)], by decide, rfl⟩

/-- The settings with one variable of this name. -/
def withVariable (name : String) (value : Float) : Settings :=
  { standard with bindings := Dictionary.empty.insert name ⟨value, none⟩ }

theorem readsBack_withRates : (standard.withRates euroRates).ReadsBack := by
  have hrates : ∀ x ∈ (standard.withRates euroRates).doubles, Json.ReadsBack x := by
    decide +kernel
  exact hrates

theorem dated_withVariable (name : String) (value : Float) : (withVariable name value).Dated :=
  ⟨nofun, nofun⟩

theorem read_saved_half :
    read (withVariable "x" 0.5).text = .ok (withVariable "x" 0.5) ∧
      ∃ text, persist "a" none euroRates = .ok text ∧
        read text = .ok (standard.withRates euroRates) ∧
        (RateRecord.ofSet euroRates).toSet = .ok euroRates := by
  have hdoubles : ∀ x ∈ (withVariable "x" 0.5).doubles, x.isFinite = true := by decide +kernel
  have hreads : ∀ x ∈ (withVariable "x" 0.5).doubles, Json.ReadsBack x := by decide +kernel
  obtain ⟨hsaved, -, hheld⟩ := read_saved "a" none accepted_euroRates
  obtain ⟨text, hpersist, -, hread, -⟩ := hheld standard rfl
  exact ⟨(hsaved _ (dated_withVariable "x" 0.5) hdoubles).2.2 hreads, text, hpersist,
    hread.2 readsBack_withRates, by decide +kernel⟩

/-- A double of sixteen digits that is read from its text as the one below. -/
theorem read_saved_changed :
    let s := withVariable "x" 9.997222652671265
    s.Dated ∧ (∀ x ∈ s.doubles, x.isFinite = true) ∧
      read s.text = .ok (withVariable "x" 9.997222652671264) ∧ read s.text ≠ .ok s :=
  ⟨dated_withVariable .., by decide +kernel⟩

/-! ### Reading the file again -/

/-- A file into which rates were put is read again, and takes other rates, unless the settings
without rates and the record of the rates are too long together. It is never malformed. -/
theorem ofFile_persist (hrates : rates.Accepted) (h : persist path content rates = .ok text) :
    ∃ c, held path content = .ok c ∧
      text.utf8ByteSize = c.withoutRates.text.utf8ByteSize + recordSize rates ∧
      ofFile path (some text) =
        (if greatestFile < text.utf8ByteSize then .error (.fileTooLarge text.utf8ByteSize)
        else .ok (c.withRates rates).reread) ∧
      ∀ again, persist path (some text) again =
        if greatestFile < text.utf8ByteSize then .error (.fileTooLarge text.utf8ByteSize)
        else .ok ((c.withRates rates).reread.withRates again).text := by
  obtain ⟨c, hc, rfl⟩ := exists_held h
  have hfile : ofFile path (some (c.withRates rates).text) =
      if greatestFile < (c.withRates rates).text.utf8ByteSize
      then .error (.fileTooLarge (c.withRates rates).text.utf8ByteSize)
      else .ok (c.withRates rates).reread := by
    rw [ofFile_eq, checkPath_of_held hc, Except.bind, read_withRates c hrates]
  refine ⟨c, hc, size_withRates c rates, hfile, fun again => ?_⟩
  rw [persist_eq, held, hfile]
  split <;> rfl

theorem ofFile_persist_half :
    ∃ text, persist "a" none euroRates = .ok text ∧
      ofFile "a" (some text) = .ok (standard.withRates euroRates) := by
  have hpersist : persist "a" none euroRates = .ok (standard.withRates euroRates).text := rfl
  obtain ⟨c, hheld, hsize, hfile, -⟩ := ofFile_persist accepted_euroRates hpersist
  have hc : standard = c := Except.ok.inj hheld
  rw [← hc] at hsize hfile
  have hsmall :
      ¬ greatestFile < standard.withoutRates.text.utf8ByteSize + recordSize euroRates := by
    decide +kernel
  rw [hsize, if_neg hsmall, reread_eq_self_iff.2 readsBack_withRates] at hfile
  exact ⟨_, hpersist, hfile⟩

/-- The text with one variable is as long as its name and what stands around it. -/
theorem size_withVariable (name : String) :
    (withVariable name 1).text.utf8ByteSize = utf8Len (Json.quoted name) + 122 := by
  let value : Json := VariableSetting.json ⟨1, none⟩
  have hvariables : Json.lineSize 1 ("variables", Json.fields [(name, value)]) =
      utf8Len (Json.quoted name) + 55 := by
    have hvalue : utf8Len (Json.indentedAt 2 value) = 26 := by decide
    have hkey : utf8Len (Json.quoted "variables") = 11 := by decide
    simp only [Json.lineSize, Json.utf8Len_indentedAt, List.map_singleton, List.sum_singleton,
      hvalue, hkey]
    omega
  have hlocale : Json.lineSize 1 ("locale", .null) = 18 := by decide
  have hunits : Json.lineSize 1 ("custom_units", Json.fields []) = 22 := by decide
  let limit : Json := .number (.ofNat standard.historyLimit.toNat)
  have hlimit : Json.lineSize 1 ("history_limit", limit) = 25 := by decide
  have hjson : (withVariable name 1).json = Json.fields [("locale", .null),
      ("variables", Json.fields [(name, value)]), ("custom_units", Json.fields []),
      ("history_limit", limit)] := rfl
  rw [utf8ByteSize_text, hjson, Json.indented, Json.utf8Len_indentedAt]
  simp only [Nat.zero_add, List.map_cons, List.map_nil, List.sum_cons, List.sum_nil, hvariables,
    hlocale, hunits, hlimit]
  omega

/-- A name of this many letters. -/
def longName (length : Nat) : String := String.ofList (List.replicate length 'a')

theorem size_longName (n : Nat) : (withVariable (longName n) 1).text.utf8ByteSize = n + 124 := by
  have hplain : ∀ n, (List.replicate n 'a').flatMap Json.escaped = List.replicate n 'a' := by
    intro n
    induction n with
    | zero => rfl
    | succ n ih => rw [List.replicate_succ, List.flatMap_cons, ih]; rfl
  have hquote : '"'.utf8Size = 1 := rfl
  rw [size_withVariable]
  simp only [Json.quoted, longName, String.toList_ofList, hplain, String.utf8Len_cons,
    String.utf8Len_append, String.utf8Len_nil, Json.utf8Len_replicate (c := 'a') rfl, hquote]

theorem readsBack_withVariable (name : String) : (withVariable name 1).ReadsBack := by
  have hone : ∀ x ∈ [(1 : Float)], Json.ReadsBack x := by decide +kernel
  exact hone

theorem withoutRates_withVariable (name : String) :
    (withVariable name 1).withoutRates = withVariable name 1 := rfl

/-- Settings whose text has the greatest size of a file. -/
def fullSettings : Settings := withVariable (longName 1048452) 1

/-- The program reads the settings that it wrote, but not once it has put rates into them. -/
theorem ofFile_persist_refused :
    ofFile "a" (some fullSettings.text) = .ok fullSettings ∧
      ∃ text, persist "a" (some fullSettings.text) euroRates = .ok text ∧
        ofFile "a" (some text) = .error (.fileTooLarge 1048740) := by
  have hsize : fullSettings.text.utf8ByteSize = 1048452 + 124 := size_longName 1048452
  have hdated : fullSettings.Dated := dated_withVariable (longName 1048452) 1
  have hreads : fullSettings.ReadsBack := readsBack_withVariable (longName 1048452)
  have hwithout : fullSettings.withoutRates = fullSettings := withoutRates_withVariable _
  -- The name is not to be evaluated.
  generalize fullSettings = s at hsize hdated hreads hwithout ⊢
  have hfile : ofFile "a" (some s.text) = .ok s := by
    rw [ofFile_eq, hsize, (read_text_iff hdated).2 hreads]
    rfl
  have hpersist : persist "a" (some s.text) euroRates = .ok (s.withRates euroRates).text := by
    rw [persist_eq, held, hfile]
    rfl
  have hrecord : recordSize euroRates = 164 := by decide +kernel
  have hgrown : (s.withRates euroRates).text.utf8ByteSize = 1048740 := by
    rw [size_withRates, hwithout, hsize, hrecord]
  refine ⟨hfile, _, hpersist, ?_⟩
  rw [ofFile_eq, hgrown]
  rfl

end Settings

end Reckoner

import Reckoner.Currency.Payload
import Reckoner.Proofs.Currency.RateSet
import Reckoner.Proofs.Dates
import Reckoner.Proofs.Json.Reading

/-!
# Rate payloads are read as they are written

The payload of a set has two members: the date, and the table of rates under the base in lower case.
Read back it gives the set (`ofJson_toJson`), provided that the doubles of the rates are read from
their texts. The one exception is the base `DATE`, whose table takes the place of the date.
-/

namespace Reckoner

/-! ### Data of a tree -/

namespace Data
variable {α : Type} {depth : Nat}

theorem ofMembers?_map {f : α → Json} {g : α → Data} :
    ∀ {es : List (String × α)}, (∀ e ∈ es, ofJson? depth (f e.2) = some (g e.2)) →
      ofMembers? depth (es.map fun e => (some e.1, f e.2)) = some (es.map fun e => (e.1, g e.2))
  | [], _ => rfl
  | e :: es, h => by
    obtain ⟨he, hes⟩ := List.forall_mem_cons.1 h
    simp only [List.map_cons, ofMembers?, he, ofMembers?_map hes]

/-- The data of an object whose members are in ascending order. -/
theorem ofJson?_fields {es : List (String × α)} (hes : Ascending es) {f : α → Json} {g : α → Data}
    (h : ∀ e ∈ es, ofJson? depth (f e.2) = some (g e.2)) :
    ofJson? (depth + 1) (Json.fields (es.map fun e => (e.1, f e.2))) =
      some (.object (es.map fun e => (e.1, g e.2))) := by
  have hascending : Ascending (es.map fun e => (e.1, g e.2)) := List.pairwise_map.2 hes
  rw [Json.fields, List.map_map, ofJson?]
  have hmembers := ofMembers?_map h
  simp only [Function.comp_def]
  rw [hmembers, Option.map_some, Dictionary.ofList_of_ascending hascending]

end Data

namespace RateSet
variable {s : RateSet}

/-- The number that a double is read as. -/
def readNumber (x : Float) : Number := ((Numeral.ofDouble x).number?).getD (.natural 0)

theorem readNumber_of_readsBack {x : Float} (h : Json.ReadsBack x) :
    (Numeral.ofDouble x).number? = some (readNumber x) ∧ (readNumber x).double = x := by
  obtain ⟨n, hn, hx⟩ := Option.map_eq_some_iff.1 h.reads.2
  rw [readNumber, hn]
  exact ⟨rfl, hx⟩

/-- The rates of a payload, with their codes in lower case. -/
def lowered (s : RateSet) : List (String × Float) :=
  s.rates.entries.map fun e => (Text.lowercase e.1, e.2)

/-- The table of a payload. -/
def table (s : RateSet) : Json := Json.fields (s.lowered.map fun e => (e.1, Json.double e.2))

/-- What the table of a payload is read as. -/
def tableData (s : RateSet) : List (String × Data) :=
  s.lowered.map fun e => (e.1, .number (readNumber e.2))

/-- The members of a payload, each with what it is read as. -/
def members (s : RateSet) : Dictionary (Json × Data) :=
  (Dictionary.empty.insert "date" (Json.string s.date.text, .text s.date.text)).insert
    (Text.lowercase s.base) (s.table, .object s.tableData)

/-- The members as they are read. -/
def membersData (s : RateSet) : Dictionary Data :=
  (Dictionary.empty.insert "date" (.text s.date.text)).insert
    (Text.lowercase s.base) (.object s.tableData)

theorem mem_members {e : String × Json × Data} (h : e ∈ s.members.entries) :
    e = (Text.lowercase s.base, s.table, .object s.tableData) ∨
      e = ("date", Json.string s.date.text, .text s.date.text) := by
  rcases mem_bindEntry h with h | h
  · exact .inl h
  · exact .inr (List.mem_singleton.1 h)

theorem map_members : s.members.entries.map (fun e => (e.1, e.2.2)) = s.membersData.entries :=
  map_bindEntry Prod.snd

/-- The doubles of the rates are read from their texts. -/
def ReadsBack (s : RateSet) : Prop :=
  ∀ code rate, s.rates.get? code = some rate → Json.ReadsBack rate

namespace Sound

theorem upperCode (h : s.Sound) : ∀ e ∈ s.rates.entries, IsUpperCode e.1 := fun _ he =>
  h.code (Dictionary.get?_of_mem he)

/-- Codes are in the same order in lower case. -/
theorem ascending_lowered (h : s.Sound) : Ascending s.lowered :=
  List.pairwise_map.2 (s.rates.ascending.imp_of_mem fun ha hb hlt =>
    (h.upperCode _ ha).lowercase_lt (h.upperCode _ hb) hlt)

theorem toJson_eq (h : s.Sound) :
    s.toJson =
      String.ofList (Json.fields (s.members.entries.map fun e => (e.1, e.2.1))).compact := by
  have hascending : Ascending (s.lowered.map fun e => (e.1, Json.double e.2)) :=
    List.pairwise_map.2 h.ascending_lowered
  have htable : s.rates.entries.foldl
      (fun d e => d.insert (Text.lowercase e.1) (Json.double e.2)) Dictionary.empty =
        Dictionary.ofList (s.lowered.map fun e => (e.1, Json.double e.2)) := by
    rw [Dictionary.ofList, lowered, List.foldl_map, List.foldl_map]
  have hmembers : s.members.entries.map (fun e => (e.1, e.2.1)) =
      ((Dictionary.empty.insert "date" (Json.string s.date.text)).insert
        (Text.lowercase s.base) s.table).entries := map_bindEntry Prod.fst
  rw [toJson, htable, Dictionary.ofList_of_ascending hascending, hmembers]
  rfl

/-- A set is made again of its date, its base and its rates, with codes that are its own in upper
case. -/
theorem make_map (h : s.Sound) {f : String → String}
    (hf : ∀ code, IsUpperCode code → isCode (f code) = true ∧ Text.asciiUpper (f code) = code) :
    make s.date (f s.base) (s.rates.entries.map fun e => (f e.1, e.2)) = .ok s := by
  have hentries : s.rates.entries ≠ [] := by
    intro hnil
    have hown := h.own
    rw [Dictionary.get?, hnil] at hown
    cases hown
  have hadmits : ∀ e ∈ s.rates.entries.map fun e => (f e.1, e.2), Admits e := by
    intro e he
    obtain ⟨e', he', rfl⟩ := List.mem_map.1 he
    have hget : s.rates.get? e'.1 = some e'.2 := Dictionary.get?_of_mem he'
    exact ⟨(hf _ (h.upperCode e' he')).1, h.rate hget⟩
  have hentered : entered .empty (s.rates.entries.map fun e => (f e.1, e.2)) = s.rates := by
    have hofList : entered .empty (s.rates.entries.map fun e => (f e.1, e.2)) =
        Dictionary.ofList s.rates.entries := by
      rw [entered, List.foldl_map, Dictionary.ofList]
      exact List.foldl_ext _ _ _ fun d e he => by rw [(hf e.1 (h.upperCode e he)).2]
    rw [hofList, Dictionary.ofList_of_ascending s.rates.ascending]
  refine make_eq_ok_iff.2 ⟨(hf _ h.base).1, hadmits, ?_, ?_⟩
  · exact fun hnil => hentries (List.map_eq_nil_iff.1 hnil)
  · rw [(hf _ h.base).2, hentered, Dictionary.insert_of_get? h.own]

theorem make_lowered (h : s.Sound) : make s.date (Text.lowercase s.base) s.lowered = .ok s :=
  h.make_map fun _ hcode => ⟨hcode.isCode_lowercase, hcode.asciiUpper_lowercase⟩

theorem make_entries (h : s.Sound) : make s.date s.base s.rates.entries = .ok s := by
  have hmake := h.make_map (f := id) fun _ hcode => ⟨hcode.isCode, hcode.asciiUpper⟩
  have hsame : s.rates.entries.map (fun e => (id e.1, e.2)) = s.rates.entries := List.map_id _
  rwa [hsame] at hmake

/-- `DATE` is the one base that is `date` in lower case. -/
theorem lowercase_base_eq_iff (h : s.Sound) : Text.lowercase s.base = "date" ↔ s.base = "DATE" := by
  refine ⟨fun heq => ?_, fun heq => ?_⟩
  · rw [← h.base.asciiUpper_lowercase, heq]
    decide +kernel
  · rw [heq]
    decide +kernel

end Sound

/-! ### Reading -/

section
variable (hs : s.Sound) (hr : s.ReadsBack)
include hr

theorem readsBack_lowered : ∀ e ∈ s.lowered, Json.ReadsBack e.2 := by
  intro e he
  obtain ⟨e', he', rfl⟩ := List.mem_map.1 he
  exact hr e'.1 e'.2 (Dictionary.get?_of_mem he')

theorem reads_table : Json.Reads s.table s.table.compact := by
  refine Json.reads_fields fun m hm => ?_
  obtain ⟨e, he, rfl⟩ := List.mem_map.1 hm
  exact (readsBack_lowered hr e he).reads.1

theorem rates?_tableData : rates? s.tableData = .ok s.lowered := by
  have hnumber := readsBack_lowered hr
  unfold tableData
  generalize s.lowered = es at hnumber
  induction es with
  | nil => rfl
  | cons e es ih =>
    obtain ⟨he, hes⟩ := List.forall_mem_cons.1 hnumber
    rw [List.map_cons, rates?, ih hes, Except.map, (readNumber_of_readsBack he).2]

include hs

theorem ofJson?_table (depth : Nat) :
    Data.ofJson? (depth + 1) s.table = some (.object s.tableData) :=
  Data.ofJson?_fields (f := Json.double) (g := fun x => .number (readNumber x)) hs.ascending_lowered
    fun e he => by
      rw [Json.double, Data.ofJson?, (readNumber_of_readsBack (readsBack_lowered hr e he)).1]
      rfl

theorem read?_toJson :
    (Json.read? s.toJson.toList).bind (Data.ofJson? Data.greatestDepth) =
      some (.object s.membersData.entries) := by
  have hreads : ∀ m ∈ s.members.entries.map (fun e => (e.1, e.2.1)),
      Json.Reads m.2 m.2.compact := by
    intro m hm
    obtain ⟨e, he, rfl⟩ := List.mem_map.1 hm
    rcases mem_members he with rfl | rfl
    · exact reads_table hr
    · exact Json.reads_string _
  rw [hs.toJson_eq, String.toList_ofList, (Json.reads_fields hreads).read?, Option.bind_some,
    ← map_members]
  refine Data.ofJson?_fields (f := Prod.fst) (g := Prod.snd) s.members.ascending fun e he => ?_
  rcases mem_members he with rfl | rfl
  · exact ofJson?_table hs hr _
  · rfl

end

/-! ### The date and the base -/

theorem date?_membersData_of_ne (hvalid : s.date.Valid) (hne : Text.lowercase s.base ≠ "date") :
    date? s.membersData.entries = .ok s.date := by
  have hdate : lookupEntry "date" s.membersData.entries = some (.text s.date.text) := by
    show s.membersData.get? "date" = _
    rw [membersData, Dictionary.get?_insert, if_neg hne, Dictionary.get?_insert_self]
  have hparse : Date.parse? s.date.text = some s.date := Date.read?_text hvalid ⟨false⟩
  simp only [date?, hdate, hparse]

theorem filter_membersData (hne : Text.lowercase s.base ≠ "date") :
    s.membersData.entries.filter (·.1 != "date") =
      [(Text.lowercase s.base, .object s.tableData)] := by
  show (bindEntry (Text.lowercase s.base) _ [("date", _)]).filter _ = _
  unfold bindEntry
  rw [if_neg hne.symm]
  split
  · simp [bindEntry, hne]
  · simp [hne]

/-- The table of the base `DATE` stands in the place of the date. -/
theorem date?_membersData_of_eq (heq : Text.lowercase s.base = "date") :
    date? s.membersData.entries = .error (.invalidDate (Data.object s.tableData).written) := by
  have hdate : lookupEntry "date" s.membersData.entries = some (.object s.tableData) := by
    show s.membersData.get? "date" = _
    rw [membersData, heq, Dictionary.get?_insert_self]
  simp only [date?, hdate]

/-- A set that was read from a payload, or made for a date of the calendar. -/
def Accepted (s : RateSet) : Prop :=
  (∃ payload, ofJson payload = .ok s) ∨
    ∃ date base rates, date.Valid ∧ make date base rates = .ok s

theorem valid_of_date? {members : List (String × Data)} {date : Date}
    (h : date? members = .ok date) : date.Valid := by
  unfold date? at h
  split at h
  · exact nomatch h
  · split at h
    · next hparse =>
      cases h
      exact Date.valid_of_read? hparse
    · exact nomatch h
  · exact nomatch h

/-- A set that is read is made for a date of the calendar. -/
theorem exists_make_of_ofJson {payload : String} (h : ofJson payload = .ok s) :
    ∃ date base rates, date.Valid ∧ make date base rates = .ok s := by
  unfold ofJson at h
  split at h
  · exact nomatch h
  · split at h
    · exact nomatch h
    · next hdate =>
      split at h
      · split at h
        · exact nomatch h
        · exact ⟨_, _, _, valid_of_date? hdate, h⟩
      · exact nomatch h
      · exact nomatch h
  · exact nomatch h

theorem Accepted.sound_valid (h : s.Accepted) : s.Sound ∧ s.date.Valid := by
  obtain ⟨date, base, rates, hvalid, hmake⟩ :
      ∃ date base rates, date.Valid ∧ make date base rates = .ok s :=
    h.elim (fun ⟨_, hpayload⟩ => exists_make_of_ofJson hpayload) id
  have hdate : s.date = date := by
    obtain ⟨-, -, -, rfl⟩ := make_eq_ok_iff.1 hmake
    rfl
  exact ⟨sound_of_make hmake, hdate ▸ hvalid⟩

/-- The rate of the base is one, whose text is read. -/
theorem readsBack_of_make {date : Date} {base : String} {rates : List (String × Float)}
    (h : make date base rates = .ok s) (hrates : ∀ e ∈ rates, Json.ReadsBack e.2) :
    s.ReadsBack := by
  obtain ⟨-, -, -, rfl⟩ := make_eq_ok_iff.1 h
  intro code rate hget
  rw [Dictionary.get?_insert] at hget
  split at hget
  · cases hget
    decide +kernel
  · rcases get?_entered hget with ⟨e, he, -, rfl⟩ | hnone
    · exact hrates e he
    · exact nomatch hnone

/-- The payload of a set is read as the set. Only the payload of the base `DATE` is refused: it has a
table where the date is looked for. -/
theorem ofJson_toJson (h : s.Accepted) (hr : s.ReadsBack) :
    ofJson s.toJson =
      if s.base = "DATE" then .error (.invalidDate (Data.object s.tableData).written)
      else .ok s := by
  obtain ⟨hs, hvalid⟩ := h.sound_valid
  have hread := read?_toJson hs hr
  unfold ofJson
  split
  · next heq => exact nomatch heq.symm.trans hread
  · next members heq =>
    cases heq.symm.trans hread
    by_cases hbase : s.base = "DATE"
    · rw [if_pos hbase, date?_membersData_of_eq (hs.lowercase_base_eq_iff.2 hbase)]
    · have hne := mt hs.lowercase_base_eq_iff.1 hbase
      rw [if_neg hbase, date?_membersData_of_ne hvalid hne]
      simp only [filter_membersData hne, rates?_tableData hr, hs.make_lowered]
  · next hother heq => exact absurd (Option.some.inj (heq.symm.trans hread)) (hother _)

theorem ofJson_toJson_euro :
    ∃ s, make ⟨2025, 1, 31⟩ "usd" [("eur", 0.5)] = .ok s ∧ ofJson s.toJson = .ok s := by
  have hmake : make ⟨2025, 1, 31⟩ "usd" [("eur", 0.5)] =
      .ok ⟨⟨2025, 1, 31⟩, "USD", (Dictionary.empty.insert "EUR" 0.5).insert "USD" 1⟩ := rfl
  have haccepted : Accepted
      ⟨⟨2025, 1, 31⟩, "USD", (Dictionary.empty.insert "EUR" 0.5).insert "USD" 1⟩ :=
    .inr ⟨_, _, _, by decide, hmake⟩
  have hrates : ∀ e ∈ [("eur", (0.5 : Float))], Json.ReadsBack e.2 := by decide +kernel
  exact ⟨_, hmake, ofJson_toJson haccepted (readsBack_of_make hmake hrates)⟩

/-- A payload with the base `DATE` is read, and the payload of the set is not: its one member holds
the rates. -/
theorem ofJson_toJson_date :
    ∃ s, ofJson "\x7b\"date\":\"2025-01-31\",\"DATE\":\x7b\"eur\":0.5\x7d\x7d" = .ok s ∧
      s.ReadsBack ∧ ofJson s.toJson = .error (.invalidDate "\x7b\"date\":1.0,\"eur\":0.5\x7d") := by
  have hmake : make ⟨2025, 1, 31⟩ "DATE" [("eur", 0.5)] =
      .ok ⟨⟨2025, 1, 31⟩, "DATE", (Dictionary.empty.insert "EUR" 0.5).insert "DATE" 1⟩ := rfl
  have hrates : ∀ e ∈ [("eur", (0.5 : Float))], Json.ReadsBack e.2 := by decide +kernel
  exact ⟨_, by decide +kernel, readsBack_of_make hmake hrates, by decide +kernel⟩

end RateSet

end Reckoner

import Reckoner.Proofs.Currency.Payload
import Reckoner.Proofs.Json.Indented
import Reckoner.Settings.File

/-!
# Settings are read as they are saved, up to their doubles

The text of settings is read as the same settings with every double replaced by the one that its
text is read as (`read_text`): keys and texts, what is left out, null, the count and the dates come
back as they are. So the settings come back exactly if and only if each of their doubles does
(`reread_eq_self_iff`).
-/

namespace Reckoner

/-! ### Dictionaries -/

theorem Ascending.map {α β : Type} {entries : List (String × α)} (h : Ascending entries)
    (f : α → β) : Ascending (entries.map fun e => (e.1, f e.2)) := List.pairwise_map.2 h

namespace Dictionary
variable {α β : Type}

/-- The dictionary with each value changed. -/
def map (f : α → β) (d : Dictionary α) : Dictionary β :=
  ⟨d.entries.map fun e => (e.1, f e.2), d.ascending.map f⟩

theorem map_eq_self_iff {f : α → α} {d : Dictionary α} :
    d.map f = d ↔ ∀ e ∈ d.entries, f e.2 = e.2 := by
  obtain ⟨entries, hentries⟩ := d
  have hmap : entries.map (fun e => (e.1, f e.2)) = entries ↔ ∀ e ∈ entries, f e.2 = e.2 := by
    rw [← List.map_id entries, List.map_map, List.map_inj_left]
    simp [Prod.ext_iff]
  rw [← hmap, map, mk.injEq]

end Dictionary

namespace Json
variable {α β : Type} {read : Json → Option β} {write : α → Json} {f : α → β}

theorem named?_fields : ∀ members : List (String × Json),
    named? (members.map fun m => (some m.1, m.2)) = some members
  | [] => rfl
  | m :: members => by rw [List.map_cons, named?, named?_fields members, Option.map_some]

/-- The reader only needs to succeed on the members that are there. -/
theorem readMembers?_map : ∀ {es : List (String × α)}, (∀ e ∈ es, read (write e.2) = some (f e.2)) →
    readMembers? read (es.map fun e => (e.1, write e.2)) = some (es.map fun e => (e.1, f e.2))
  | [], _ => rfl
  | e :: es, h => by
    obtain ⟨he, hes⟩ := List.forall_mem_cons.1 h
    simp only [List.map_cons, readMembers?, he, readMembers?_map hes]

theorem dictionary?_json {d : Dictionary α} (h : ∀ e ∈ d.entries, read (write e.2) = some (f e.2)) :
    dictionary? read (d.json write) = some (d.map f) := by
  rw [Dictionary.json, fields, dictionary?, named?_fields, Option.bind_some, readMembers?_map h,
    Option.map_some, Dictionary.ofList_of_ascending (d.ascending.map f)]
  rfl

theorem readsIndented_dictionary {d : Dictionary α}
    (h : ∀ e ∈ d.entries, ReadsIndented (write e.2)) : ReadsIndented (d.json write) :=
  readsIndented_fields (List.forall_mem_map.2 h)

/-! ### Records -/

/-- A record is read from fields that are written in order. -/
theorem record?_fields {names : List String} {members : List (String × Json)}
    (h : (members.map (·.1)).Sublist names) (hnodup : names.Nodup) :
    record? names (fields members) = some members := by
  have hknown : members.filter (fun m => names.contains m.1) = members :=
    List.filter_eq_self.2 fun m hm =>
      List.contains_iff_mem.2 (h.subset (List.mem_map_of_mem (f := fun m => m.1) hm))
  rw [fields, record?, named?_fields]
  dsimp only
  rw [hknown, if_pos (hnodup.sublist h)]

theorem field?_cons (fields : List (String × Json)) (key name : String) (v : Json)
    (absent : Option β) (read : Json → Option β) :
    field? ((key, v) :: fields) name absent read =
      if key = name then read v else field? fields name absent read := by
  unfold field?
  rw [lookupEntry]
  by_cases h : key = name
  · rw [if_pos h, if_pos h]
  · rw [if_neg h, if_neg h]

theorem field?_member? (fields : List (String × Json)) (key name : String) (o : Option α)
    (absent : Option β) (read : Json → Option β) :
    field? (member? key write o ++ fields) name absent read =
      if key = name then o.elim (field? fields name absent read) (fun x => read (write x))
      else field? fields name absent read := by
  cases o with
  | none => exact (ite_self _).symm
  | some x => exact field?_cons ..

theorem keys_member? (key : String) (o : Option α) :
    ((member? key write o).map (·.1)).Sublist [key] := by
  cases o with
  | none => exact List.nil_sublist _
  | some x => exact List.Sublist.refl _

theorem forall_mem_member? {P : String × Json → Prop} {key : String} {o : Option α}
    (h : ∀ x, o = some x → P (key, write x)) : ∀ m ∈ member? key write o, P m := by
  cases o with
  | none => exact List.forall_mem_nil _
  | some x => exact List.forall_mem_singleton.2 (h x rfl)

end Json

/-! ### What is read of the parts -/

/-- The variable with the double that its text is read as. -/
def VariableSetting.reread (v : VariableSetting) : VariableSetting :=
  { v with value := Json.reread v.value }

/-- The rates with the doubles that their texts are read as. -/
def RateRecord.reread (r : RateRecord) : RateRecord := { r with rates := r.rates.map Json.reread }

theorem Date.ofJson?_json {d : Date} (h : d.Valid) : Json.date? d.json = some d :=
  Date.read?_text h ⟨true⟩

theorem VariableSetting.ofJson?_json (v : VariableSetting) : ofJson? v.json = some v.reread := by
  have hfields : v.json.record? ["value", "unit"] =
      some (("value", .double v.value) :: Json.member? "unit" Json.string v.unit) :=
    Json.record?_fields ((Json.keys_member? "unit" v.unit).cons_cons "value") (by decide)
  have hunit : Json.field? (Json.member? "unit" Json.string v.unit) "unit" (some none)
      (Json.optional? Json.text?) = some v.unit := by
    cases v.unit <;> rfl
  simp only [ofJson?, hfields, Option.bind_eq_bind, Option.bind_some, Json.field?_cons, if_true,
    Json.double?_double, String.reduceEq, if_false, hunit]
  rfl

theorem VariableSetting.readsIndented_json (v : VariableSetting) : Json.ReadsIndented v.json :=
  Json.readsIndented_fields <| List.forall_mem_cons.2 ⟨Json.readsIndented_double v.value,
    Json.forall_mem_member? fun unit _ => Json.readsIndented_string unit⟩

theorem RateRecord.ofJson?_json {r : RateRecord} (h : r.date.Valid) :
    ofJson? r.json = some r.reread := by
  have hfields : r.json.record? ["date", "base", "rates"] =
      some [("date", r.date.json), ("base", .string r.base), ("rates", r.rates.json .double)] :=
    Json.record?_fields (List.Sublist.refl _) (by decide)
  have hrates :
      Json.dictionary? Json.double? (r.rates.json .double) = some (r.rates.map Json.reread) :=
    Json.dictionary?_json fun e _ => Json.double?_double e.2
  simp only [ofJson?, hfields, Option.bind_eq_bind, Option.bind_some, Json.field?_cons, if_true,
    String.reduceEq, if_false, Date.ofJson?_json h, hrates]
  rfl

theorem RateRecord.readsIndented_json (r : RateRecord) : Json.ReadsIndented r.json := by
  refine Json.readsIndented_fields ?_
  simp only [List.forall_mem_cons]
  exact ⟨Json.readsIndented_string _, Json.readsIndented_string _,
    Json.readsIndented_dictionary fun e _ => Json.readsIndented_double e.2, List.forall_mem_nil _⟩

theorem Dictionary.map_reread_eq_self_iff {d : Dictionary Float} :
    d.map Json.reread = d ↔ ∀ e ∈ d.entries, Json.ReadsBack e.2 := by
  simp only [map_eq_self_iff, Json.readsBack_iff]

theorem VariableSetting.reread_eq_self_iff {v : VariableSetting} :
    v.reread = v ↔ Json.ReadsBack v.value := by
  obtain ⟨value, unit⟩ := v
  rw [reread, mk.injEq, and_iff_left rfl, Json.readsBack_iff]

theorem RateRecord.reread_eq_self_iff {r : RateRecord} :
    r.reread = r ↔ ∀ e ∈ r.rates.entries, Json.ReadsBack e.2 := by
  obtain ⟨date, base, rates⟩ := r
  rw [reread, mk.injEq, and_iff_right rfl, and_iff_right rfl, Dictionary.map_reread_eq_self_iff]

namespace Settings

/-- The dates of the settings are dates of the calendar. -/
structure Dated (s : Settings) : Prop where
  rates : ∀ r, s.rates = some r → r.date.Valid
  updated : ∀ d, s.ratesUpdated = some d → d.Valid

/-- The settings with the doubles that their texts are read as. -/
def reread (s : Settings) : Settings :=
  { s with
    bindings := s.bindings.map VariableSetting.reread
    customUnits := s.customUnits.map (·.map Json.reread)
    rates := s.rates.map RateRecord.reread }

section
variable {s : Settings} (h : s.Dated)

/-- The fields that are left out when there is nothing to write. -/
def optionalFields (s : Settings) : List (String × Json) :=
  Json.member? "currency_rates" RateRecord.json s.rates ++
    Json.member? "rates_updated_at" Date.json s.ratesUpdated

theorem record?_json (s : Settings) : s.json.record? fieldNames =
    some ([("locale", s.locale.elim .null .string),
      ("variables", s.bindings.json VariableSetting.json),
      ("custom_units", s.customUnits.json fun units => units.json .double),
      ("history_limit", .number (.ofNat s.historyLimit.toNat))] ++ s.optionalFields) := by
  rw [json, List.append_assoc]
  refine Json.record?_fields ?_ (by decide)
  rw [List.map_append, List.map_append]
  exact (List.Sublist.refl ["locale", "variables", "custom_units", "history_limit"]).append
    ((Json.keys_member? _ s.rates).append (Json.keys_member? _ s.ratesUpdated))

theorem field?_locale (s : Settings) :
    Json.optional? Json.text? (s.locale.elim .null .string) = some s.locale := by
  cases s.locale <;> rfl

theorem field?_bindings (s : Settings) :
    Json.dictionary? VariableSetting.ofJson? (s.bindings.json VariableSetting.json) =
      some (s.bindings.map VariableSetting.reread) :=
  Json.dictionary?_json fun e _ => e.2.ofJson?_json

theorem field?_customUnits (s : Settings) :
    Json.dictionary? (Json.dictionary? Json.double?)
        (s.customUnits.json fun units => units.json .double) =
      some (s.customUnits.map (·.map Json.reread)) :=
  Json.dictionary?_json fun _ _ => Json.dictionary?_json fun e _ => Json.double?_double e.2

include h

theorem field?_rates : Json.field? s.optionalFields "currency_rates" (some none)
    (Json.optional? RateRecord.ofJson?) = some (s.rates.map RateRecord.reread) := by
  rw [optionalFields, Json.field?_member?, if_pos rfl]
  cases hr : s.rates with
  | none => cases s.ratesUpdated <;> rfl
  | some r => exact congrArg (Option.map some) (RateRecord.ofJson?_json (h.rates r hr))

theorem field?_updated : Json.field? s.optionalFields "rates_updated_at" (some none)
    (Json.optional? Json.date?) = some s.ratesUpdated := by
  have hlast : Json.field? (Json.member? "rates_updated_at" Date.json s.ratesUpdated)
      "rates_updated_at" (some none) (Json.optional? Json.date?) = some s.ratesUpdated := by
    cases hd : s.ratesUpdated with
    | none => rfl
    | some d => exact congrArg (Option.map some) (Date.ofJson?_json (h.updated d hd))
  rw [optionalFields, Json.field?_member?, if_neg (by decide), hlast]

theorem ofJson?_json : ofJson? s.json = some s.reread := by
  simp only [ofJson?, record?_json, List.cons_append, List.nil_append, Option.bind_eq_bind,
    Option.bind_some, Json.field?_cons, String.reduceEq, if_true, if_false, field?_locale,
    field?_bindings, field?_customUnits, Json.count?_ofNat, field?_rates h, field?_updated h]
  rfl

omit h in
theorem readsIndented_json (s : Settings) : Json.ReadsIndented s.json := by
  have hlocale : Json.ReadsIndented (s.locale.elim .null .string) := by
    cases s.locale with
    | none => exact Json.readsIndented_null
    | some code => exact Json.readsIndented_string code
  have hbindings : Json.ReadsIndented (s.bindings.json VariableSetting.json) :=
    Json.readsIndented_dictionary fun e _ => e.2.readsIndented_json
  have hunits : Json.ReadsIndented (s.customUnits.json fun units => units.json .double) :=
    Json.readsIndented_dictionary fun _ _ =>
      Json.readsIndented_dictionary fun e _ => Json.readsIndented_double e.2
  have hlimit := Json.readsIndented_ofNat s.historyLimit.toNat
  refine Json.readsIndented_fields ?_
  rw [List.forall_mem_append, List.forall_mem_append]
  refine ⟨⟨?_, Json.forall_mem_member? fun r _ => r.readsIndented_json⟩,
    Json.forall_mem_member? fun d _ => Json.readsIndented_string d.text⟩
  simp only [List.forall_mem_cons]
  exact ⟨hlocale, hbindings, hunits, hlimit, List.forall_mem_nil _⟩

/-- Saved settings are read as they are, with every double reread. -/
theorem read_text : read s.text = .ok s.reread := by
  rw [read, text, String.toList_ofList, s.readsIndented_json.read?, Option.bind_some,
    ofJson?_json h]

end

/-! ### Which settings come back -/

/-- The doubles of the settings: values of variables, factors of units, and rates. -/
def doubles (s : Settings) : List Float :=
  s.bindings.entries.map (·.2.value) ++
    s.customUnits.entries.flatMap (fun e => e.2.entries.map (·.2)) ++
    s.rates.elim [] (fun r => r.rates.entries.map (·.2))

/-- The doubles are read from their texts. -/
def ReadsBack (s : Settings) : Prop := ∀ x ∈ s.doubles, Json.ReadsBack x

theorem reread_eq_self_iff {s : Settings} : s.reread = s ↔ s.ReadsBack := by
  have hbindings : s.bindings.map VariableSetting.reread = s.bindings ↔
      ∀ x ∈ s.bindings.entries.map (·.2.value), Json.ReadsBack x := by
    simp only [Dictionary.map_eq_self_iff, VariableSetting.reread_eq_self_iff, List.forall_mem_map]
  have hunits : s.customUnits.map (·.map Json.reread) = s.customUnits ↔
      ∀ x ∈ s.customUnits.entries.flatMap (fun e => e.2.entries.map (·.2)), Json.ReadsBack x := by
    rw [Dictionary.map_eq_self_iff, List.forall_mem_flatMap]
    simp only [Dictionary.map_reread_eq_self_iff, List.forall_mem_map]
  have hrates : s.rates.map RateRecord.reread = s.rates ↔
      ∀ x ∈ s.rates.elim [] (fun r => r.rates.entries.map (·.2)), Json.ReadsBack x := by
    cases s.rates with
    | none => exact iff_of_true rfl (List.forall_mem_nil _)
    | some r =>
      rw [Option.map_some, Option.some_inj, RateRecord.reread_eq_self_iff, Option.elim_some,
        List.forall_mem_map]
  unfold ReadsBack doubles
  rw [List.forall_mem_append, List.forall_mem_append, ← hbindings, ← hunits, ← hrates]
  obtain ⟨locale, bindings, units, limit, rates, updated⟩ := s
  simp only [reread, mk.injEq, true_and, and_true, and_assoc]

/-! ### What is read has dates of the calendar -/

theorem field?_eq_some {α : Type} {fields : List (String × Json)} {name : String}
    {absent : Option α} {read : Json → Option α} {x : α} (h : Json.field? fields name absent read = some x) :
    absent = some x ∨ ∃ v, read v = some x := by
  unfold Json.field? at h
  split at h
  · exact .inr ⟨_, h⟩
  · exact .inl h

theorem optional?_eq_some {α : Type} {read : Json → Option α} {v : Json} {x : α}
    (h : Json.optional? read v = some (some x)) : ∃ v, read v = some x := by
  unfold Json.optional? at h
  split at h
  · exact nomatch h
  · obtain ⟨y, hy, hyx⟩ := Option.map_eq_some_iff.1 h
    cases hyx
    exact ⟨_, hy⟩

theorem valid_of_date? {v : Json} {d : Date} (h : Json.date? v = some d) : d.Valid := by
  obtain ⟨text, -, hd⟩ := Option.bind_eq_some_iff.1 h
  exact Date.valid_of_read? hd

/-- An optional field that is given was read from some value. -/
theorem exists_of_optional {α : Type} {fields : List (String × Json)} {name : String}
    {read : Json → Option α} {x : α}
    (h : Json.field? fields name (some none) (Json.optional? read) = some (some x)) :
    ∃ v, read v = some x := by
  rcases field?_eq_some h with hnone | ⟨v, hv⟩
  · exact nomatch hnone
  · exact optional?_eq_some hv

theorem valid_of_ofJson? {v : Json} {r : RateRecord} (h : RateRecord.ofJson? v = some r) :
    r.date.Valid := by
  obtain ⟨fields, -, h⟩ := Option.bind_eq_some_iff.1 h
  obtain ⟨date, hdate, h⟩ := Option.bind_eq_some_iff.1 h
  obtain ⟨base, -, h⟩ := Option.bind_eq_some_iff.1 h
  obtain ⟨rates, -, h⟩ := Option.bind_eq_some_iff.1 h
  cases h
  rcases field?_eq_some hdate with hnone | ⟨v, hv⟩
  · exact nomatch hnone
  · exact valid_of_date? hv

theorem dated_of_read {text : String} {s : Settings} (h : read text = .ok s) : s.Dated := by
  unfold read at h
  split at h
  · next hjson =>
    cases h
    obtain ⟨v, -, h⟩ := Option.bind_eq_some_iff.1 hjson
    obtain ⟨fields, -, h⟩ := Option.bind_eq_some_iff.1 h
    obtain ⟨locale, -, h⟩ := Option.bind_eq_some_iff.1 h
    obtain ⟨bindings, -, h⟩ := Option.bind_eq_some_iff.1 h
    obtain ⟨units, -, h⟩ := Option.bind_eq_some_iff.1 h
    obtain ⟨limit, -, h⟩ := Option.bind_eq_some_iff.1 h
    obtain ⟨rates, hrates, h⟩ := Option.bind_eq_some_iff.1 h
    obtain ⟨updated, hupdated, h⟩ := Option.bind_eq_some_iff.1 h
    cases h
    refine ⟨fun r hr => ?_, fun d hd => ?_⟩
    · obtain ⟨v, hv⟩ := exists_of_optional (hrates.trans (congrArg some hr))
      exact valid_of_ofJson? hv
    · obtain ⟨v, hv⟩ := exists_of_optional (hupdated.trans (congrArg some hd))
      exact valid_of_date? hv
  · exact nomatch h

end Settings

end Reckoner

import Reckoner.Proofs.Effect

/-!
# The recorded date of the rates

Sessions share one date for the rates. It is recorded when rates are put into effect, and settings
may name a date of their own: `run_new_ratesDate` says which date stands after a run of calls to
any number of sessions. If no settings name another date than that of the rates in them, it is the
date of the set that was put into effect last, in whatever session, and there is none before the
first one. Settings that name a date and have no rates break this (`run_new_ratesDate_unfounded`).
-/

namespace Reckoner

/-- The settings name no date of the rates but that of the rates in them. -/
def Settings.Truthful (f : Settings) : Prop :=
  f.ratesUpdated = none ∨ f.ratesUpdated = f.rates.map (·.date)

/-- If the operation loads settings, they are truthful. -/
def Operation.Truthful : Operation → Prop
  | .loadSettings path content => ∀ f, Settings.ofFile path content = .ok f → f.Truthful
  | _ => True

/-- A truthful file records the date of its own rates, if it has rates. -/
theorem Settings.Prepares.ratesDate_eq {f : Settings} {active : Locale} {p : Prepared}
    (h : f.Prepares active p) (hf : f.Truthful) : p.ratesDate = p.rates.map (·.date) := by
  rw [h.ratesDate, h.date_rates]
  rcases hf with hnone | hsame
  · rw [hnone]
    rfl
  · rw [hsame]
    cases f.rates <;> rfl

namespace Session
variable {s s' : Session} {op : Operation} {r : Outcome Reply}

/-- The settings of a file as they take effect in a session, if they do. -/
def prepared? (s : Session) (path : String) (content : Option String) : Option Prepared :=
  ((Settings.ofFile path content).bind (·.prepare s.shared.locale)).toOption

/-- The set of rates that an operation puts into effect. -/
def stored? (s : Session) : Operation → Option RateSet
  | .setRates payload => (RateSet.ofJson payload).toOption
  | .loadSettings path content => (s.prepared? path content).bind (·.rates)
  | _ => none

/-- The date of the rates that an operation records. -/
def dated? (s : Session) : Operation → Option Date
  | .setRates payload => (RateSet.ofJson payload).toOption.map (·.date)
  | .loadSettings path content => (s.prepared? path content).bind (·.ratesDate)
  | _ => none

/-- Rates and their date change by payloads and settings only. -/
theorem Effect.rates_eq (h : Effect s op r s') (hrates : ∀ payload, op ≠ .setRates payload)
    (hload : ∀ path content, op ≠ .loadSettings path content) :
    s'.memory.rates = s.memory.rates ∧ s'.shared.ratesDate = s.shared.ratesDate := by
  cases h with
  | answered op text st a =>
    refine ⟨?_, rfl⟩
    dsimp only [Memory.record, Statement.bindIn]
    cases st.assignment <;> rfl
  | loaded path content => exact absurd rfl (hload path content)
  | rated payload => exact absurd rfl (hrates payload)
  | _ => exact ⟨rfl, rfl⟩

theorem rates_perform (s : Session) (op : Operation) :
    ((perform op).exec s).2.memory.rates = (s.stored? op).or s.memory.rates ∧
      ((perform op).exec s).2.shared.ratesDate = (s.dated? op).or s.shared.ratesDate := by
  cases op with
  | setRates payload =>
    simp only [perform, Action.exec_map, exec_setRates, stored?, dated?]
    cases RateSet.ofJson payload <;> exact ⟨rfl, rfl⟩
  | loadSettings path content =>
    simp only [perform, Action.exec_bind, exec_loadSettings, stored?, dated?, prepared?]
    cases (Settings.ofFile path content).bind (·.prepare s.shared.locale) with
    | error e => exact ⟨rfl, rfl⟩
    | ok p =>
      refine ⟨?_, ?_⟩
      · show (p.applyMemory s.memory).rates = p.rates.or s.memory.rates
        rw [Prepared.applyMemory_eq]
        cases p.rates <;> rfl
      · show (p.applyShared s.shared).ratesDate = p.ratesDate.or s.shared.ratesDate
        rw [Prepared.applyShared]
        cases p.ratesDate <;> rfl
  | _ => exact (effect_perform s _).rates_eq (by rintro _ ⟨⟩) (by rintro _ _ ⟨⟩)

/-- A truthful operation records the date of the rates that it puts into effect, and no other. -/
theorem dated?_eq (s : Session) (h : op.Truthful) : s.dated? op = (s.stored? op).map (·.date) := by
  cases op with
  | loadSettings path content =>
    simp only [dated?, stored?, prepared?]
    cases hprepare : (Settings.ofFile path content).bind (·.prepare s.shared.locale) with
    | error e => rfl
    | ok p =>
      obtain ⟨f, hfile, hp⟩ := bind_eq_ok_iff.1 hprepare
      exact (Settings.prepare_eq_ok_iff.1 hp).ratesDate_eq (h f hfile)
  | setRates payload => rfl
  | _ => rfl

end Session

/-- What is asked of one of several sessions. -/
structure Call where
  session : Nat
  operation : Operation

namespace Host
variable {h : Host} {c : Call} {cs : List Call} {set : RateSet}

/-- The host after a call. Without such a session nothing happens. -/
def step (h : Host) (c : Call) : Host := ((h.perform c.session c.operation).map (·.2)).getD h

/-- The host after calls, one after the other. -/
def run (h : Host) (cs : List Call) : Host := cs.foldl step h

/-- The rates of a session. -/
def rates? (h : Host) (i : Nat) : Option RateSet := h.memories[i]?.bind (·.rates)

def stored? (h : Host) (c : Call) : Option RateSet :=
  (h.session? c.session).bind (·.stored? c.operation)

def dated? (h : Host) (c : Call) : Option Date :=
  (h.session? c.session).bind (·.dated? c.operation)

/-- The set of rates that a run puts into effect last, in whatever session. -/
def lastStored (h : Host) : List Call → Option RateSet
  | [] => none
  | c :: cs => (lastStored (h.step c) cs).or (h.stored? c)

/-- The date of the rates that a run records last. -/
def lastDated (h : Host) : List Call → Option Date
  | [] => none
  | c :: cs => (lastDated (h.step c) cs).or (h.dated? c)

/-! ### One call -/

theorem session?_eq (h : Host) (i : Nat) :
    h.session? i = h.memories[i]?.map fun m => ⟨m, h.shared⟩ := rfl

theorem step_eq (h : Host) (c : Call) :
    h.step c =
      match h.session? c.session with
      | none => h
      | some s => h.put c.session ((Session.perform c.operation).exec s).2 := by
  unfold step perform
  cases h.session? c.session <;> rfl

theorem ratesDate_step (h : Host) (c : Call) :
    (h.step c).shared.ratesDate = (h.dated? c).or h.shared.ratesDate := by
  rw [step_eq, dated?, session?_eq]
  cases h.memories[c.session]? with
  | none => rfl
  | some m => exact (Session.rates_perform ⟨m, h.shared⟩ c.operation).2

/-- A call puts rates into effect in the session that it is made to and in no other. -/
theorem rates?_step (h : Host) (c : Call) (i : Nat) :
    (h.step c).rates? i =
      if i = c.session then (h.stored? c).or (h.rates? i) else h.rates? i := by
  rw [step_eq, stored?, session?_eq, rates?, rates?]
  cases hm : h.memories[c.session]? with
  | none =>
    dsimp only [Option.map_none, Option.bind_none]
    rw [Option.none_or, ite_self]
  | some m =>
    have hperform := (Session.rates_perform ⟨m, h.shared⟩ c.operation).1
    have hlength : c.session < h.memories.length := (List.getElem?_eq_some_iff.1 hm).1
    dsimp only [put, Option.map_some]
    split
    · next hi =>
      rw [hi, hm, List.getElem?_set_self hlength]
      exact hperform
    · next hi => rw [List.getElem?_set_ne (Ne.symm hi)]

/-! ### Runs -/

theorem ratesDate_run (cs : List Call) : ∀ h : Host,
    (h.run cs).shared.ratesDate = (h.lastDated cs).or h.shared.ratesDate := by
  induction cs with
  | nil => exact fun h => rfl
  | cons c cs ih =>
    intro h
    rw [lastDated, Option.or_assoc, ← ratesDate_step]
    exact ih (h.step c)

theorem lastDated_eq : ∀ {cs : List Call} (h : Host), (∀ c ∈ cs, c.operation.Truthful) →
    h.lastDated cs = (h.lastStored cs).map (·.date)
  | [], _, _ => rfl
  | c :: cs, h, hcs => by
    obtain ⟨hc, hcs⟩ := List.forall_mem_cons.1 hcs
    have hdated : h.dated? c = (h.stored? c).map (·.date) := by
      rw [dated?, stored?]
      cases h.session? c.session with
      | none => rfl
      | some s => exact s.dated?_eq hc
    rw [lastDated, lastStored, lastDated_eq (h.step c) hcs, hdated]
    cases lastStored (h.step c) cs <;> rfl

/-- The set that a run puts into effect last is in effect in a session from some call on, and no
later call puts another one into effect. -/
theorem exists_of_lastStored : ∀ {cs : List Call} {h : Host}, h.lastStored cs = some set →
    ∃ before c after, cs = before ++ c :: after ∧
      (h.run (before ++ [c])).rates? c.session = some set ∧
      (h.run (before ++ [c])).lastStored after = none
  | c :: cs, h, hset => by
    rw [lastStored] at hset
    cases hlater : lastStored (h.step c) cs with
    | some later =>
      rw [hlater] at hset
      cases hset
      obtain ⟨before, c', after, rfl, hrates, hafter⟩ := exists_of_lastStored hlater
      exact ⟨c :: before, c', after, rfl, hrates, hafter⟩
    | none =>
      rw [hlater, Option.none_or] at hset
      refine ⟨[], c, cs, rfl, ?_, hlater⟩
      show (h.step c).rates? c.session = some set
      rw [rates?_step, if_pos rfl, hset]
      rfl

/-- After a run from the start the recorded date is the last one that a call recorded. If all
settings that are loaded are truthful, it is the date of the set of rates that was put into effect
last, in whatever session, and rates are fresh only if that set is. -/
theorem run_new_ratesDate (sessions : Nat) (cs : List Call) :
    ((new sessions).run cs).shared.ratesDate = (new sessions).lastDated cs ∧
      ((∀ c ∈ cs, c.operation.Truthful) →
        ((new sessions).run cs).shared.ratesDate = ((new sessions).lastStored cs).map (·.date) ∧
        ∀ now, ((new sessions).run cs).shared.ratesStale now =
          ((new sessions).lastStored cs).elim true (·.date.isStale now)) ∧
      ∀ set, (new sessions).lastStored cs = some set →
        ∃ before c after, cs = before ++ c :: after ∧
          ((new sessions).run (before ++ [c])).rates? c.session = some set ∧
          ((new sessions).run (before ++ [c])).lastStored after = none := by
  have hrecorded : ((new sessions).run cs).shared.ratesDate = (new sessions).lastDated cs :=
    (ratesDate_run cs (new sessions)).trans (Option.or_none ..)
  refine ⟨hrecorded, fun hcs => ?_, fun set => exists_of_lastStored⟩
  have hstored := hrecorded.trans (lastDated_eq (new sessions) hcs)
  refine ⟨hstored, fun now => ?_⟩
  rw [Shared.ratesStale, hstored]
  cases (new sessions).lastStored cs <;> rfl

/-- A payload of rates. -/
def januaryPayload : String :=
  "\x7b\"date\":\"2025-01-31\",\"usd\":\x7b\"eur\":0.5\x7d\x7d"

/-- Settings that hold rates and name the date of them. -/
def marchSettings : String :=
  "\x7b\"currency_rates\":[\"2025-03-01\",\"USD\",\x7b\"EUR\":0.25\x7d]," ++
    "\"rates_updated_at\":\"2025-03-01\"\x7d"

/-- A payload is put into effect in one session, then truthful settings in another one; what is
refused and what is evaluated leaves their date. -/
theorem run_new_ratesDate_settings :
    let cs : List Call := [⟨1, .setRates januaryPayload⟩, ⟨0, .loadSettings "a" (some marchSettings)⟩,
      ⟨1, .setRates "\x7b\x7d"⟩, ⟨1, .evaluate "1 + 1"⟩]
    (∀ c ∈ cs, c.operation.Truthful) ∧
      ((new 2).run cs).shared.ratesDate = some ⟨2025, 3, 1⟩ ∧
      ((new 2).run cs).shared.ratesStale 1740816000 = false := by
  intro cs
  have hfile : Settings.ofFile "a" (some marchSettings) =
      .ok { Settings.standard with
        rates := some ⟨⟨2025, 3, 1⟩, "USD", Dictionary.empty.insert "EUR" 0.25⟩
        ratesUpdated := some ⟨2025, 3, 1⟩ } := by decide +kernel
  have htruthful : ∀ c ∈ cs, c.operation.Truthful := by
    simp only [cs, List.forall_mem_cons]
    refine ⟨trivial, fun f hf => ?_, trivial, trivial, List.forall_mem_nil _⟩
    cases hfile.symm.trans hf
    exact .inr rfl
  have hlast : ((new 2).lastStored cs).map (·.date) = some ⟨2025, 3, 1⟩ := by decide +kernel
  obtain ⟨-, hstored, -⟩ := run_new_ratesDate 2 cs
  obtain ⟨hdate, hstale⟩ := hstored htruthful
  refine ⟨htruthful, hdate.trans hlast, (hstale _).trans ?_⟩
  obtain ⟨set, hset, hd⟩ := Option.map_eq_some_iff.1 hlast
  rw [hset, Option.elim_some, hd]
  decide +kernel

/-- Settings that name a date and hold no rates. -/
def dateOnlySettings : String := "\x7b\"rates_updated_at\":\"2025-03-01\"\x7d"

/-- The date of settings without rates is recorded; the rates then count as fresh, and there are
none. -/
theorem run_new_ratesDate_unfounded :
    let h := (new 1).run [⟨0, .loadSettings "a" (some dateOnlySettings)⟩]
    h.shared.ratesDate = some ⟨2025, 3, 1⟩ ∧ h.shared.ratesStale 1740816000 = false ∧
      h.rates? 0 = none := by
  decide +kernel

end Host

end Reckoner

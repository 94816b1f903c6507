import Mathlib.Data.List.DropRight
import Reckoner.Proofs.Effect

/-!
# The history over a run

An observer who sees the operations of a run and the replies to them (`Session.exchanges`) can tell
which evaluations succeeded, and which of these came after the last clearing. `Retains` says what the
memory has of them. `moves_perform` lists what one operation can do to the history, its limit and the
next sequence number; `Retains` passes through each of these moves, and so holds after every run
(`retains_run`).
-/

namespace Reckoner

/-- An operation and the reply to it. -/
structure Exchange where
  operation : Operation
  reply : Outcome Reply

/-- What an entry of the history holds besides its number. -/
structure Success where
  input : String
  result : Value
  formatted : String

def Entry.success (e : Entry) : Success := ⟨e.input, e.result, e.formatted⟩

namespace Exchange

def clears (x : Exchange) : Bool :=
  match x.operation with
  | .clearHistory => true
  | _ => false

/-- The successful evaluation that an exchange shows. The answer to a preview is none. -/
def success? (x : Exchange) : Option Success :=
  match x.operation, x.reply with
  | .evaluate text, .ok (.answer a) => some ⟨Text.trimmed text, a.value, a.formatted⟩
  | .evaluateBytes bytes, .ok (.answer a) =>
    (Utf8.decode bytes).toOption.map fun cs =>
      ⟨Text.trimmed (String.ofList cs), a.value, a.formatted⟩
  | _, _ => none

end Exchange

def successes (xs : List Exchange) : List Success := xs.filterMap Exchange.success?

/-- The exchanges behind the last clearing; all of them if there is none. -/
def sinceClear (xs : List Exchange) : List Exchange := xs.rtakeWhile fun x => !x.clears

namespace Session

/-- The operations of a run with the replies to them. -/
def exchanges (s : Session) : List Operation → List Exchange
  | [] => []
  | op :: ops => ⟨op, ((perform op).exec s).1⟩ :: exchanges (s.step op) ops

theorem run_concat (s : Session) (ops : List Operation) (op : Operation) :
    run s (ops ++ [op]) = (run s ops).step op := by
  rw [run, List.foldl_concat]
  rfl

theorem exchanges_concat (s : Session) (ops : List Operation) (op : Operation) :
    exchanges s (ops ++ [op]) = exchanges s ops ++ [⟨op, ((perform op).exec (run s ops)).1⟩] := by
  induction ops generalizing s with
  | nil => rfl
  | cons o ops ih => exact congrArg (_ :: ·) (ih (s.step o))

end Session

/-! ### One operation -/

/-- History, limit and next sequence number are the same. -/
structure Memory.SameCounts (m m' : Memory) : Prop where
  history : m'.history = m.history
  limit : m'.limit = m.limit
  next : m'.nextSequence = m.nextSequence

theorem Statement.sameCounts_bindIn (st : Statement) (m : Memory) (v : Value) :
    m.SameCounts (st.bindIn m v) := by
  unfold bindIn
  cases st.assignment <;> exact ⟨rfl, rfl, rfl⟩

/-- What one exchange does to the history, its limit and the next sequence number. -/
inductive Moves (m : Memory) (x : Exchange) (m' : Memory) : Prop where
  | answer (a : Success) (shown : x.success? = some a) (opens : x.clears = false)
      (history : m'.history =
        Memory.latest m.limit (m.history ++ [⟨a.input, a.result, a.formatted, m.nextSequence⟩]))
      (limit : m'.limit = m.limit) (next : m'.nextSequence = m.nextSequence + 1)
  | clear (shown : x.success? = none) (clears : x.clears = true) (history : m'.history = [])
      (limit : m'.limit = m.limit) (next : m'.nextSequence = m.nextSequence)
  | limit (shown : x.success? = none) (opens : x.clears = false) (positive : 1 ≤ m'.limit)
      (history : m'.history = Memory.latest m'.limit m.history)
      (next : m'.nextSequence = m.nextSequence)
  | keep (shown : x.success? = none) (opens : x.clears = false) (same : m.SameCounts m')

namespace Exchange
variable {op : Operation}

theorem success?_error (op : Operation) (e : Failure) : success? ⟨op, .error e⟩ = none := by
  cases op <;> rfl

theorem success?_answer {text : String} (h : op.input? = some text) (a : Answer) :
    success? ⟨op, .ok (.answer a)⟩ = some ⟨Text.trimmed text, a.value, a.formatted⟩ := by
  cases op with
  | evaluate text' =>
    cases h
    rfl
  | evaluateBytes bytes =>
    obtain ⟨cs, hcs, rfl⟩ := Option.map_eq_some_iff.1 h
    simp only [success?, hcs, Option.map_some]
  | _ => exact nomatch h

theorem clears_of_ne (h : op ≠ .clearHistory) (r : Outcome Reply) : clears ⟨op, r⟩ = false := by
  cases op with
  | clearHistory => exact absurd rfl h
  | _ => rfl

end Exchange

namespace Session
variable {s s' : Session}

theorem moves_of_effect {op : Operation} {r : Outcome Reply} (h : Effect s op r s')
    (hop : op ≠ .clearHistory) : Moves s.memory ⟨op, r⟩ s'.memory := by
  have hopen : Exchange.clears ⟨op, r⟩ = false := Exchange.clears_of_ne hop r
  cases h with
  | refused op e => exact .keep (Exchange.success?_error op e) hopen ⟨rfl, rfl, rfl⟩
  | answered op text st a input =>
    obtain ⟨hhistory, hlimit, hnext⟩ := st.sameCounts_bindIn s.memory a.value
    refine .answer _ (Exchange.success?_answer input a) hopen ?_ hlimit ?_
    · simp only [Memory.record, hhistory, hlimit, hnext]
    · simp only [Memory.record, hnext]
  | loaded path content f p =>
    dsimp only
    rw [Prepared.applyMemory_eq]
    exact .limit rfl hopen (Nat.le_max_right ..) rfl rfl
  | clearedHistory => exact absurd rfl hop
  | _ => exact .keep rfl hopen ⟨rfl, rfl, rfl⟩

theorem moves_perform (s : Session) (op : Operation) :
    Moves s.memory ⟨op, ((perform op).exec s).1⟩ (s.step op).memory := by
  by_cases hop : op = .clearHistory
  · rw [hop]
    exact .clear rfl rfl rfl rfl rfl
  · exact moves_of_effect (effect_perform s op) hop

end Session

/-! ### Numbers of entries -/

/-- The entries are numbered one by one, and the last number is below `total` by one. -/
def Numbered (total : Nat) (history : List Entry) : Prop :=
  ∃ first, first + history.length = total ∧
    history.map (·.sequence) = List.range' first history.length

namespace Numbered
variable {total : Nat} {history : List Entry}

theorem latest (h : Numbered total history) (limit : Nat) :
    Numbered total (Memory.latest limit history) := by
  obtain ⟨first, hsum, hmap⟩ := h
  refine ⟨first + (history.length - limit), ?_, ?_⟩
  · rw [Memory.length_latest]
    omega
  · rw [Memory.latest, List.map_drop, hmap, List.drop_range', List.length_drop, Nat.mul_one]

theorem concat (h : Numbered total history) {e : Entry} (he : e.sequence = total) :
    Numbered (total + 1) (history ++ [e]) := by
  obtain ⟨first, hsum, hmap⟩ := h
  refine ⟨first, by rw [List.length_append, List.length_singleton]; omega, ?_⟩
  rw [List.map_append, hmap, List.length_append, List.length_singleton, List.range'_concat]
  simp [he, hsum]

theorem sequence_last (h : Numbered total history) {e : Entry} (he : history.getLast? = some e) :
    e.sequence + 1 = total := by
  obtain ⟨first, hsum, hmap⟩ := h
  obtain ⟨init, rfl⟩ := List.getLast?_eq_some_iff.1 he
  rw [List.length_append, List.length_singleton] at hsum hmap
  rw [List.map_append, List.range'_concat] at hmap
  have hlast : e.sequence = first + init.length := by
    simpa using (List.append_inj' hmap rfl).2
  omega

end Numbered

/-! ### Runs -/

theorem successes_concat (xs : List Exchange) (x : Exchange) :
    successes (xs ++ [x]) = successes xs ++ x.success?.toList := by
  rw [successes, List.filterMap_append]
  cases h : x.success? <;> simp [successes, h]

theorem successes_concat_of_none {x : Exchange} (hx : x.success? = none) (xs : List Exchange) :
    successes (xs ++ [x]) = successes xs := by
  rw [successes_concat, hx]
  exact List.append_nil _

theorem sinceClear_concat (xs : List Exchange) (x : Exchange) :
    sinceClear (xs ++ [x]) = if x.clears then [] else sinceClear xs ++ [x] := by
  rw [sinceClear, List.rtakeWhile_concat]
  cases x.clears <;> rfl

/-- The successes since the last clearing, after an exchange that is no clearing. -/
theorem recent_concat {x : Exchange} (hx : x.clears = false) (xs : List Exchange) :
    successes (sinceClear (xs ++ [x])) = successes (sinceClear xs) ++ x.success?.toList := by
  rw [sinceClear_concat, hx, if_neg Bool.false_ne_true, successes_concat]

/-- What a memory has of the successes among the exchanges of its session. -/
structure Retains (xs : List Exchange) (m : Memory) : Prop where
  /-- The entries are the last ones of the successes since the last clearing, in their order. -/
  suffix : m.history.map Entry.success <:+ successes (sinceClear xs)
  /-- The latest of them is retained. -/
  latest : successes (sinceClear xs) ≠ [] → m.history ≠ []
  limit_pos : 1 ≤ m.limit
  length_le : m.history.length ≤ m.limit
  /-- All successes count, also those before the last clearing. -/
  numbered : Numbered (successes xs).length m.history
  next : m.nextSequence = (successes xs).length

namespace Retains
variable {xs : List Exchange} {x : Exchange} {m m' : Memory}

theorem suffix_latest {entries : List Entry} {recent : List Success}
    (h : entries.map Entry.success <:+ recent) (limit : Nat) :
    (Memory.latest limit entries).map Entry.success <:+ recent := by
  rw [Memory.latest, List.map_drop]
  exact (List.drop_suffix ..).trans h

theorem latest_eq (h : Retains xs m) : Memory.latest m.limit m.history = m.history :=
  Memory.latest_of_length_le h.length_le

theorem answer (h : Retains xs m) {a : Success} (hx : x.success? = some a)
    (hopen : x.clears = false)
    (hhistory : m'.history =
      Memory.latest m.limit (m.history ++ [⟨a.input, a.result, a.formatted, m.nextSequence⟩]))
    (hlimit : m'.limit = m.limit) (hnext : m'.nextSequence = m.nextSequence + 1) :
    Retains (xs ++ [x]) m' := by
  have hall : (successes (xs ++ [x])).length = (successes xs).length + 1 := by
    rw [successes_concat, hx, List.length_append]
    rfl
  have hlength : m'.history.length = min m.limit (m.history.length + 1) := by
    rw [hhistory, Memory.length_latest, List.length_append]
    rfl
  have hpos := h.limit_pos
  refine ⟨?_, fun _ => List.ne_nil_of_length_pos (by omega), by omega, by omega, ?_, ?_⟩
  · obtain ⟨dropped, hdropped⟩ := h.suffix
    rw [recent_concat hopen, hx, hhistory]
    refine suffix_latest ⟨dropped, ?_⟩ _
    rw [List.map_append, ← List.append_assoc, hdropped]
    rfl
  · rw [hall, hhistory]
    exact (h.numbered.concat h.next).latest _
  · rw [hall, hnext, h.next]

theorem clear (h : Retains xs m) (hx : x.success? = none) (hclears : x.clears = true)
    (hhistory : m'.history = []) (hlimit : m'.limit = m.limit)
    (hnext : m'.nextSequence = m.nextSequence) : Retains (xs ++ [x]) m' := by
  have hall := successes_concat_of_none hx xs
  have hrecent : successes (sinceClear (xs ++ [x])) = [] := by
    rw [sinceClear_concat, hclears]
    rfl
  refine ⟨?_, fun hne => absurd hrecent hne, hlimit ▸ h.limit_pos, ?_, ?_, ?_⟩
  · rw [hhistory]
    exact List.nil_suffix
  · rw [hhistory]
    exact Nat.zero_le _
  · rw [hhistory]
    exact ⟨_, rfl, rfl⟩
  · rw [hall, hnext, h.next]

/-- The oldest entries go when the limit becomes smaller. -/
theorem limit (h : Retains xs m) (hx : x.success? = none) (hopen : x.clears = false)
    (hpos : 1 ≤ m'.limit) (hhistory : m'.history = Memory.latest m'.limit m.history)
    (hnext : m'.nextSequence = m.nextSequence) : Retains (xs ++ [x]) m' := by
  have hall := successes_concat_of_none hx xs
  have hrecent : successes (sinceClear (xs ++ [x])) = successes (sinceClear xs) := by
    rw [sinceClear_concat, hopen, if_neg Bool.false_ne_true, successes_concat_of_none hx]
  have hlength : m'.history.length = min m'.limit m.history.length := by
    conv_lhs => rw [hhistory, Memory.length_latest]
  refine ⟨?_, fun hne => ?_, hpos, by omega, ?_, ?_⟩
  · rw [hrecent, hhistory]
    exact suffix_latest h.suffix _
  · have hold := List.length_pos_of_ne_nil (h.latest (hrecent ▸ hne))
    exact List.ne_nil_of_length_pos (by omega)
  · rw [hall, hhistory]
    exact h.numbered.latest _
  · rw [hall, hnext, h.next]

theorem moves (h : Retains xs m) (hm : Moves m x m') : Retains (xs ++ [x]) m' := by
  cases hm with
  | answer a shown opens history limit next => exact h.answer shown opens history limit next
  | clear shown clears history limit next => exact h.clear shown clears history limit next
  | limit shown opens positive history next => exact h.limit shown opens positive history next
  | keep shown opens same =>
    refine h.limit shown opens (same.limit ▸ h.limit_pos) ?_ same.next
    rw [same.limit, h.latest_eq, same.history]

end Retains

namespace Session

theorem retains_run (ops : List Operation) :
    Retains (exchanges .new ops) (run .new ops).memory := by
  -- from the end of the run, for `Retains.moves` is about its last operation
  induction ops using List.reverseRecOn with
  | nil => exact ⟨List.nil_suffix, absurd rfl, by decide, by decide, ⟨0, rfl, rfl⟩, rfl⟩
  | append_singleton ops op ih =>
    rw [exchanges_concat, run_concat]
    exact ih.moves (moves_perform _ op)

/-- The limit has been the same since the last clearing, or since the start if there is none. -/
def Steady (ops : List Operation) : Prop :=
  ∀ early late, ops = early ++ late → .clearHistory ∉ late →
    (run .new early).memory.limit = (run .new ops).memory.limit

theorem Steady.init {ops : List Operation} {op : Operation} (h : Steady (ops ++ [op]))
    (hop : Operation.clearHistory ≠ op) :
    Steady ops ∧ (run .new (ops ++ [op])).memory.limit = (run .new ops).memory.limit := by
  have hops := h ops [op] rfl fun hmem => hop (List.mem_singleton.1 hmem)
  refine ⟨fun early late heq hlate => ?_, hops.symm⟩
  have hearly := h early (late ++ [op]) (by rw [heq, List.append_assoc]) fun hmem =>
    (List.mem_append.1 hmem).elim hlate fun hmem => hop (List.mem_singleton.1 hmem)
  exact hearly.trans hops.symm

theorem length_history_of_steady {ops : List Operation} (h : Steady ops) :
    (run .new ops).memory.history.length =
      min (run .new ops).memory.limit (successes (sinceClear (exchanges .new ops))).length := by
  induction ops using List.reverseRecOn with
  | nil => rfl
  | append_singleton ops op ih =>
    have hle := (retains_run ops).length_le
    have hmoves := moves_perform (run .new ops) op
    have hsteady : Exchange.clears ⟨op, ((perform op).exec (run .new ops)).1⟩ = false →
        _ := fun hx => h.init fun hop => by rw [← hop] at hx; exact nomatch hx
    rw [exchanges_concat]
    rw [run_concat] at hsteady ⊢
    cases hmoves with
    | answer a shown opens history limit next =>
      have hlen := ih (hsteady opens).1
      rw [recent_concat opens, shown, history, limit, Memory.length_latest]
      simp only [List.length_append, List.length_singleton, Option.toList_some]
      omega
    | clear shown clears history limit next =>
      rw [sinceClear_concat, if_pos clears, history]
      exact (Nat.min_zero _).symm
    | limit shown opens positive history next =>
      obtain ⟨hops, hlimit⟩ := hsteady opens
      have hlen := ih hops
      rw [recent_concat opens, shown, history, Memory.length_latest]
      simp only [Option.toList_none, List.append_nil]
      omega
    | keep shown opens same =>
      have hlen := ih (hsteady opens).1
      rw [recent_concat opens, shown, same.history, same.limit]
      simp only [Option.toList_none, List.append_nil]
      omega

/-- After any run of operations on a new session, the history holds the latest of the successful
evaluations since the last clearing, no more than the limit allows; just as many as it allows if the
limit has not changed since then. Their numbers are consecutive and count all successes. -/
theorem run_new_history (ops : List Operation) :
    let m := (run .new ops).memory
    let all := successes (exchanges .new ops)
    let recent := successes (sinceClear (exchanges .new ops))
    m.history.map Entry.success <:+ recent ∧ (recent ≠ [] → m.history ≠ []) ∧
      m.history.length ≤ m.limit ∧ 1 ≤ m.limit ∧
      (Steady ops → m.history.length = min m.limit recent.length) ∧
      (∃ first, m.history.map (·.sequence) = List.range' first m.history.length) ∧
      ∀ e, m.history.getLast? = some e → e.sequence + 1 = all.length := by
  intro m all recent
  have h := retains_run ops
  obtain ⟨first, -, hsequence⟩ := h.numbered
  exact ⟨h.suffix, h.latest, h.length_le, h.limit_pos, length_history_of_steady, ⟨first, hsequence⟩,
    fun e he => h.numbered.sequence_last he⟩

end Session

end Reckoner

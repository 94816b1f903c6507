import Mathlib.Data.List.TakeWhile
import Reckoner.Handle
import Reckoner.Proofs.Effect
import Reckoner.Proofs.Text.Utf8

/-!
# Previews show what an evaluation gives

A preview and an evaluation of the same bytes give the same amount and the same texts, with one
exception (`Handle.preview_eq_evaluate_iff`). An evaluation looks at the length of the bytes before it
decodes them, a preview decodes first: bytes that are too many and not UTF-8 are refused for one
reason by the one and for the other reason by the other. Where the bytes are UTF-8 the two checks of
the length agree, as a decoded text is as large as its bytes.
-/

namespace Reckoner

/-- Bytes of an input that are too many and not UTF-8. -/
def PassedText.Garbled (p : PassedText) : Prop :=
  ∃ bytes fault, p.bytes = .ok bytes ∧ greatestInput < bytes.length ∧
    Utf8.decode bytes = .error fault

/-- An input that is too long is refused before anything is read from it. -/
theorem Statement.ofInput_of_long {text : String} (h : greatestInput < text.utf8ByteSize)
    (l : Locale) : Statement.ofInput l text = .error (.inputTooLarge text.utf8ByteSize) := by
  have hcheck : checkInput text = .error (.inputTooLarge text.utf8ByteSize) := if_pos h
  rw [Statement.ofInput, Reading.ofInput, hcheck]
  rfl

namespace Session
variable {s : Session} {text : String} {bytes : List UInt8} {cs : List Char}

/-- A preview gives the outcome of an evaluation. -/
theorem preview_eq (s : Session) (text : String) : s.preview text = ((evaluate text).exec s).1 := by
  simp only [preview, Memory.preview, evaluate, onMemory, Action.exec_bind, Action.exec_get,
    Action.exec_onPart]

theorem preview_of_long (h : greatestInput < text.utf8ByteSize) :
    s.preview text = .error (.inputTooLarge text.utf8ByteSize) := by
  rw [preview_eq, exec_evaluate, Statement.ofInput_of_long h]

/-- On bytes that are UTF-8 it does not matter whether their length is checked before or behind the
decoding. -/
theorem exec_evaluateBytes_of_decode (h : Utf8.decode bytes = .ok cs) (s : Session) :
    ((evaluateBytes bytes).exec s).1 = s.preview (String.ofList cs) := by
  have hsize := Utf8.utf8ByteSize_of_decode h
  rw [exec_evaluateBytes, h]
  split
  · next hlong =>
    rw [preview_of_long (by rw [hsize]; exact hlong), hsize]
  · exact (preview_eq s _).symm

end Session

/-! ### Outputs -/

theorem toList_withoutZeros_append (s t : String) :
    (withoutZeros (s ++ t)).toList = (withoutZeros s).toList ++ (withoutZeros t).toList := by
  simp only [withoutZeros, String.toList_ofList, String.toList_append, List.filter_append]

/-- The two reasons for which garbled bytes are refused can be told apart. -/
theorem Output.notUtf8_ne_inputTooLarge (fault : Utf8.Fault) (length : Nat) :
    Output.ofOutcome (.error (.input (.notUtf8 fault))) ≠
      .ofOutcome (.error (.inputTooLarge length)) := by
  intro h
  have htext : withoutZeros ("Invalid input: " ++ InputFault.message (.notUtf8 fault)) =
      withoutZeros ("Input too large: " ++ toString length ++ " bytes exceeds the limit of " ++
        toString greatestInput ++ " bytes") :=
    Option.some.inj (congrArg Output.errorText h)
  have hinvalid :
      (withoutZeros "Invalid input: ").toList = 'I' :: 'n' :: 'v' :: "alid input: ".toList := by
    decide +kernel
  have hlarge :
      (withoutZeros "Input too large: ").toList = 'I' :: 'n' :: 'p' :: "ut too large: ".toList := by
    decide +kernel
  have hlist := congrArg String.toList htext
  simp only [toList_withoutZeros_append, hinvalid, hlarge, List.append_assoc] at hlist
  exact absurd (congrArg (·[2]?) hlist) (by simp)

namespace Handle
variable {s : Session} {p : PassedText} {bytes : List UInt8}

theorem answer_some (s : Session) (p : PassedText) :
    (answer (some s) p).1 =
      match p.bytes with
      | .error e => .error e
      | .ok bytes => ((Session.evaluateBytes bytes).exec s).1 := by
  have hexec : (answer (some s) p).1 =
      ((do Session.evaluateBytes (← p.bytes) : Action Session Answer).exec s).1 := rfl
  rw [hexec, Action.exec_bind, Action.exec_lift]
  cases p.bytes <;> rfl

theorem previewAnswer_some (s : Session) (p : PassedText) :
    previewAnswer (some s) p =
      match p.bytes with
      | .error e => .error e
      | .ok bytes => previewBytes s bytes := by
  show p.bytes.bind (previewBytes s) = _
  cases p.bytes <;> rfl

theorem evaluate_output (h : Handle) (p : PassedText) :
    (h.evaluate p).1 = .ofOutcome (h.answer p).1 := rfl

theorem preview_eq_evaluate (h : ¬ p.Garbled) : (preview (some s) p) = (evaluate (some s) p).1 := by
  rw [preview, evaluate_output, answer_some, previewAnswer_some]
  cases hbytes : p.bytes with
  | error e => rfl
  | ok bytes =>
    dsimp only
    unfold previewBytes
    cases hdecode : Utf8.decode bytes with
    | ok cs => exact congrArg Output.ofOutcome (Session.exec_evaluateBytes_of_decode hdecode s).symm
    | error e =>
      have hshort : ¬ greatestInput < bytes.length := fun hlong =>
        h ⟨bytes, e, hbytes, hlong, hdecode⟩
      rw [Session.exec_evaluateBytes, if_neg hshort, hdecode]

theorem preview_ne_evaluate (h : p.Garbled) : (preview (some s) p) ≠ (evaluate (some s) p).1 := by
  obtain ⟨bytes, fault, hbytes, hlong, hdecode⟩ := h
  rw [preview, evaluate_output, answer_some, previewAnswer_some, hbytes]
  dsimp only
  rw [previewBytes, hdecode, Session.exec_evaluateBytes, if_pos hlong]
  exact Output.notUtf8_ne_inputTooLarge fault bytes.length

/-- A preview through a handle gives what an evaluation would give, unless there is a session and the
bytes are garbled; and a preview of a text answers as an evaluation does and keeps the session. -/
theorem preview_eq_evaluate_iff (h : Handle) (p : PassedText) :
    (h.preview p = (h.evaluate p).1 ↔ h = none ∨ ¬ p.Garbled) ∧
      ∀ (s : Session) (text : String), (Session.perform (.preview text)).exec s =
        (((Session.perform (.evaluate text)).exec s).1, s) := by
  refine ⟨?_, fun s text => ?_⟩
  · cases h with
    | none => exact iff_of_true rfl (.inl rfl)
    | some s =>
      refine ⟨fun heq => .inr fun hp => preview_ne_evaluate hp heq, fun hp => ?_⟩
      exact preview_eq_evaluate (hp.resolve_left (Option.some_ne_none s))
  · have hevaluate : (Session.perform (.evaluate text)).exec s =
        (((Session.evaluate text).exec s).1.map .answer, ((Session.evaluate text).exec s).2) :=
      Action.exec_map ..
    rw [hevaluate, ← Session.preview_eq]
    simp only [Session.perform, Action.exec_bind, Action.exec_get, Action.exec_lift]
    cases s.preview text <;> rfl

/-- A byte that starts no character before as many ones as an input may have bytes. -/
def garbledBytes : List UInt8 := 0xFF :: List.replicate greatestInput 0x31

theorem terminated_garbledBytes : terminated garbledBytes = garbledBytes :=
  List.takeWhile_eq_self_iff.2 fun b hb => by
    rcases List.mem_cons.1 hb with rfl | hb
    · rfl
    · rw [List.eq_of_mem_replicate hb]
      rfl

theorem preview_eq_evaluate_garbled :
    preview (some .new) (some garbledBytes) ≠ (evaluate (some .new) (some garbledBytes)).1 := by
  refine preview_ne_evaluate ⟨garbledBytes, .invalid 0 1, ?_, ?_, rfl⟩
  · exact congrArg Except.ok terminated_garbledBytes
  · rw [garbledBytes, List.length_cons, List.length_replicate]
    exact Nat.lt_succ_self _

end Handle

end Reckoner

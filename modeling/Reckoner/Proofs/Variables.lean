import Reckoner.Proofs.Effect
import Reckoner.Proofs.Grammar.Exact
import Reckoner.Proofs.Scanning
import Reckoner.Proofs.Spelling.Names
import Reckoner.Proofs.Substitution

/-!
# Reading bound names back

A name that can be bound is one token as it stands, and its value is what it was bound to. It is not
always read as it stands: a session gives back what a name was bound to if, and only if, the name is
within the limit for inputs and the rules of spelling leave it alone (`Session.reads_back_iff`). Where
they do not, the statement that is read does not mention the name, so that its value is the same
whatever the name is bound to.
-/

namespace Reckoner

/-! ### Words of a statement -/

namespace Grammar

/-- A word that an expression mentions is among the tokens that derive it. -/
theorem Derives.exists_word {k : Category} {w : List Terminal} {e : Expr} (h : Derives k w e)
    {word : String} (hword : e.mentions word = true) :
    ∃ t ∈ w, t.origin.word? = some word := by
  have hleft : ∀ {u v : List Terminal} {t : Terminal}, (∃ x ∈ u, x.origin.word? = some word) →
      ∃ x ∈ u ++ t :: v, x.origin.word? = some word := fun ⟨x, hx, hw⟩ =>
    ⟨x, List.mem_append_left _ hx, hw⟩
  have hright : ∀ {u v : List Terminal} {t : Terminal}, (∃ x ∈ v, x.origin.word? = some word) →
      ∃ x ∈ u ++ t :: v, x.origin.word? = some word := fun ⟨x, hx, hw⟩ =>
    ⟨x, List.mem_append_right _ (List.mem_cons_of_mem _ hx), hw⟩
  induction h with
  | summand _ ih | factor _ ih | base _ ih | unsigned _ ih | unsuffixed _ ih => exact ih hword
  | minus _ ih | plus _ ih =>
    obtain ⟨x, hx, hw⟩ := ih hword
    exact ⟨x, List.mem_cons_of_mem _ hx, hw⟩
  | sum _ _ _ ihl ihr | product _ _ _ ihl ihr | raised _ _ ihl ihr =>
    rcases Bool.or_eq_true_iff.1 hword with hl | hr
    · exact hleft (ihl hl)
    · exact hright (ihr hr)
  | percent _ ih => exact hleft (ih hword)
  | percentOf _ _ ihl ihr =>
    rcases Bool.or_eq_true_iff.1 hword with hl | hr
    · exact hleft (ihl hl)
    · obtain ⟨x, hx, hw⟩ := ihr hr
      exact hright ⟨x, List.mem_cons_of_mem _ hx, hw⟩
  | number | scaled | earlier => cases hword
  | @measured x t unit hunit | @scaledMeasured x _ _ t unit _ hunit =>
    obtain rfl : unit = word := by simpa using hword
    exact ⟨.token t, by simp, hunit.word?⟩
  | call _ _ ih | group _ ih =>
    obtain ⟨x, hx, hw⟩ := ih hword
    exact ⟨x, by simp [hx], hw⟩
  | @measuredGroup _ _ t unit _ hunit ih =>
    rcases Bool.or_eq_true_iff.1 hword with heq | hinner
    · obtain rfl := eq_of_beq heq
      exact ⟨.token t, by simp, hunit.word?⟩
    · obtain ⟨x, hx, hw⟩ := ih hinner
      exact ⟨x, by simp [hx], hw⟩
  | @name n =>
    obtain rfl : n = word := by simpa using hword
    exact ⟨_, List.mem_singleton_self _, rfl⟩

theorem Assigns.subset {ts rest : List Token} {name : Option String} (h : Assigns ts name rest) :
    rest ⊆ ts := by
  cases h with
  | bound => exact fun _ ht => List.mem_cons_of_mem _ (List.mem_cons_of_mem _ ht)
  | unbound => exact List.Subset.refl _

theorem Converts.subset {l : Locale} {ts body : List Token} {unit : Option String}
    (h : Converts l ts body unit) : body ⊆ ts := by
  cases h with
  | bound => exact List.subset_append_left ..
  | unbound => exact List.Subset.refl _

end Grammar

/-- A word that a statement mentions is a part of the text that it is read from. -/
theorem Statement.infix_of_mentions {l : Locale} {cs : List Char} {ts : List Token} {st : Statement}
    (htokens : Token.significant cs = .ok ts) (hparse : Statement.parse l ts = .ok st)
    {word : String} (hword : st.expression.mentions word = true) : word.toList <:+: cs := by
  obtain ⟨rest, body, hassigns, hconverts, hderives⟩ := Statement.parse_ok_iff.1 hparse
  obtain ⟨t, ht, hw⟩ := hderives.exists_word hword
  have hbody : t.origin ∈ body := Grammar.map_origin_mark body ▸ List.mem_map_of_mem ht
  have hmem := hassigns.subset (hconverts.subset hbody)
  exact Token.infix_of_mem_significant htokens hmem hw

/-! ### A name as an input -/

theorem checkName_eq_ok_iff {name : String} : checkName name = .ok () ↔
    isIdentifier name = true ∧ Keyword.ofText? name = none ∧ Function.ofText? name = none := by
  unfold checkName isReserved
  cases isIdentifier name <;> cases Keyword.ofText? name <;> cases Function.ofText? name <;> simp

theorem exists_of_isIdentifier {name : String} (h : isIdentifier name = true) :
    ∃ c cs, name.toList = c :: cs ∧ Text.isNameStart c = true ∧
      (∀ x ∈ cs, Text.isNamePart x = true) ∧ Spelling.NameText name.toList := by
  unfold isIdentifier at h
  split at h
  · cases h
  · next c cs heq =>
    obtain ⟨hc, hcs⟩ := Bool.and_eq_true_iff.1 h
    have hcs := List.all_eq_true.1 hcs
    refine ⟨c, cs, heq, hc, hcs, heq ▸ List.forall_mem_cons.2 ⟨?_, hcs⟩⟩
    rw [Text.isNameStart, Bool.or_eq_true_iff] at hc
    rw [Text.isNamePart, Bool.or_eq_true_iff, Bool.or_eq_true_iff]
    exact hc.imp_left .inl

namespace Statement
variable {name : String} {l : Locale}

/-- A name that is left alone is read as itself. -/
theorem ofInput_name (hname : checkName name = .ok ()) (hsize : name.utf8ByteSize ≤ greatestInput)
    (hspelling : Spelling.Undisturbed name.toList) (l : Locale) :
    ofInput l name = .ok ⟨none, .name name, none⟩ := by
  obtain ⟨hidentifier, hkeyword, -⟩ := checkName_eq_ok_iff.1 hname
  obtain ⟨c, cs, hchars, hc, hcs, htext⟩ := exists_of_isIdentifier hidentifier
  have hcheck : checkInput name = .ok () := by
    have htrim : Text.trim name.toList = name.toList :=
      (Text.thins_trim _).eq_of_no_blank htext.not_blank
    rw [checkInput, if_neg (Nat.not_lt.2 hsize), htrim, if_neg (hchars ▸ List.cons_ne_nil c cs)]
  have htokens : Token.significant name.toList = .ok [.identifier name] := by
    have hscan := Token.scan?_word hc hcs [] fun _ _ h => by cases h
    rw [List.append_nil] at hscan
    have hword : Token.ofWord (String.ofList (c :: cs)) = .identifier name := by
      rw [← hchars, String.ofList_toList, Token.ofWord, hkeyword]
    rw [hword] at hscan
    rw [hchars]
    exact (Token.CutsInto.nil.of_scan? hscan).significant
  have hparse : parse l [.identifier name] = .ok ⟨none, .name name, none⟩ := by
    refine parse_ok_iff.2 ⟨_, _, .unbound fun t rest heq => ?_, .unbound fun body t target heq => ?_,
      .summand (.factor (.base (.unsigned (.unsuffixed .name))))⟩
    · cases heq
    · have hlength := congrArg List.length heq
      rw [List.length_append] at hlength
      simp at hlength
  rw [ofInput, Reading.ofInput, hcheck]
  dsimp only
  rw [Reading.ofNormal, htext.normalize_eq_self hspelling, htokens]
  dsimp only
  rw [Reading.ofTokens, hparse]
  rfl

theorem ofInput_eq_ok {text : String} {st : Statement} (h : ofInput l text = .ok st) :
    text.utf8ByteSize ≤ greatestInput ∧ ∃ ts,
      Token.significant (Spelling.normalize l text.toList) = .ok ts ∧ parse l ts = .ok st := by
  unfold ofInput Reading.ofInput checkInput at h
  split at h
  · cases h
  · next hcheck =>
    have hsize : ¬ greatestInput < text.utf8ByteSize := fun hlt => by
      rw [if_pos hlt] at hcheck
      cases hcheck
    unfold Reading.ofNormal Reading.ofTokens at h
    cases htokens : Token.significant (Spelling.normalize l text.toList) with
    | error e =>
      rw [htokens] at h
      cases h
    | ok ts =>
      rw [htokens] at h
      dsimp only at h
      split at h
      · cases h
      · cases hparse : parse l ts with
        | error e =>
          rw [hparse] at h
          cases h
        | ok st' =>
          rw [hparse] at h
          cases h
          exact ⟨Nat.not_lt.1 hsize, ts, rfl, hparse⟩

/-- Only a name that is left alone is read as a statement that mentions it: the others are longer than
what they are read from. -/
theorem undisturbed_of_mentions (hname : checkName name = .ok ()) {st : Statement}
    (hread : ofInput l name = .ok st) (hword : st.expression.mentions name = true) :
    Spelling.Undisturbed name.toList := by
  obtain ⟨c, cs, -, -, -, htext⟩ := exists_of_isIdentifier (checkName_eq_ok_iff.1 hname).1
  obtain ⟨-, ts, htokens, hparse⟩ := ofInput_eq_ok hread
  by_contra hdisturbed
  have hlong : Spelling.solid name.toList ≤ Spelling.solid (Spelling.normalize l name.toList) :=
    (infix_of_mentions htokens hparse hword).sublist.countP_le
  exact absurd (htext.shorter_normalize hdisturbed l) (Nat.not_lt.2 hlong)

/-- The value of a name that is not mentioned does not matter. -/
theorem valueIn_bind_congr {st : Statement} (hword : st.expression.mentions name = false) (m : Memory)
    (l : Locale) (v w : Value) : st.valueIn (m.bind name v) l = st.valueIn (m.bind name w) l := by
  refine valueIn_congr ⟨rfl, fun word hmentioned => ?_, fun _ => rfl⟩
  have hne : word ≠ name := by
    rintro rfl
    cases hmentioned.symm.trans hword
  rw [Scope.bound?_bind_of_ne hne, Scope.bound?_bind_of_ne hne]

theorem valueIn_name {v : Value} (hv : v.amount.isFinite = true) (m : Memory) (l : Locale) :
    valueIn ⟨none, .name name, none⟩ (m.bind name v) l = .ok v := by
  have hnamed : Scope.named? ⟨m.bind name v, l⟩ name = some v := by
    rw [Scope.named?, Scope.bound?_bind_self]
  have heval : Expr.eval ⟨m.bind name v, l⟩ (.name name) = .ok v := by
    rw [Expr.eval, hnamed]
    exact finite_of_finite hv
  rw [valueIn, eval, heval]

end Statement

namespace Session
variable {name : String}

theorem exec_evaluate_bound {st : Statement} {s : Session} {v : Value}
    (hread : Statement.ofInput s.shared.locale name = .ok st) :
    ((evaluate name).exec { s with memory := s.memory.bind name v }).1.map (·.value) =
      st.valueIn (s.memory.bind name v) s.shared.locale := by
  rw [map_value_evaluate]
  dsimp only
  rw [hread]

theorem exec_setVariable_number (s : Session) (hname : checkName name = .ok ()) {amount : Float}
    (hfinite : amount.isFinite = true) : (setVariable name amount none).exec s =
      (.ok (), { s with memory := s.memory.bind name (.number amount) }) := by
  have hkind : s.kindOf none = .ok .number := rfl
  rw [exec_setVariable, if_pos hfinite, hkind, hname]
  rfl

/-- A session reads back what a name was bound to, whatever that is, if and only if the name is within
the limit for inputs and the rules of spelling leave it alone. -/
theorem reads_back_iff (s : Session) (hname : checkName name = .ok ()) :
    (∀ amount unit s', (setVariable name amount unit).exec s = (.ok (), s') →
      ∃ kind, s.kindOf unit = .ok kind ∧
        ((evaluate name).exec s').1.map (·.value) = .ok ⟨amount, kind⟩) ↔
      name.utf8ByteSize ≤ greatestInput ∧ Spelling.Undisturbed name.toList := by
  constructor
  · intro h
    have hreply : ∀ amount : Float, amount.isFinite = true →
        ((evaluate name).exec { s with memory := s.memory.bind name (.number amount) }).1.map
          (·.value) = .ok (.number amount) := by
      intro amount hfinite
      obtain ⟨kind, hkind, hvalue⟩ := h amount none _ (exec_setVariable_number s hname hfinite)
      cases hkind
      exact hvalue
    -- what does not mention the name has one value, whatever the name is bound to
    have hone := hreply 1 (by decide)
    have htwo := hreply 2 (by decide)
    cases hread : Statement.ofInput s.shared.locale name with
    | error e =>
      rw [map_value_evaluate] at hone
      dsimp only at hone
      rw [hread] at hone
      cases hone
    | ok st =>
      rw [exec_evaluate_bound hread] at hone htwo
      refine ⟨(Statement.ofInput_eq_ok hread).1, Statement.undisturbed_of_mentions hname hread ?_⟩
      by_contra hword
      have hsame := Statement.valueIn_bind_congr (Bool.eq_false_iff.2 hword) s.memory s.shared.locale
        (.number 1) (.number 2)
      rw [hone, htwo] at hsame
      have hamount : (1 : Float) = 2 := congrArg Value.amount (Except.ok.inj hsame)
      exact absurd hamount (by decide)
  · rintro ⟨hsize, hspelling⟩ amount unit s' hset
    rw [exec_setVariable] at hset
    split at hset
    · next hfinite =>
      cases hkind : s.kindOf unit with
      | error e =>
        rw [hkind] at hset
        cases hset
      | ok kind =>
        rw [hkind, hname] at hset
        cases hset
        refine ⟨kind, rfl, ?_⟩
        rw [exec_evaluate_bound (Statement.ofInput_name hname hsize hspelling s.shared.locale)]
        exact Statement.valueIn_name (v := ⟨amount, kind⟩) hfinite s.memory s.shared.locale
    · cases hset

theorem reads_back_iff_height :
    ((evaluate "größe_2").exec ⟨Memory.new.bind "größe_2" (.number 5), .new⟩).1.map (·.value) =
      .ok (.number 5) := by
  have hname : checkName "größe_2" = .ok () := by decide +kernel
  obtain ⟨-, -, -, -, -, htext⟩ := exists_of_isIdentifier (checkName_eq_ok_iff.1 hname).1
  have hspelling : Spelling.Undisturbed "größe_2".toList :=
    (Spelling.rewriteWords_eq_iff htext.not_blank).1 (by decide +kernel)
  obtain ⟨kind, hkind, hvalue⟩ := (reads_back_iff .new hname).2 ⟨by decide, hspelling⟩ 5 none _
    (exec_setVariable_number .new hname (by decide))
  cases hkind
  exact hvalue

/-- A name that is a word for a number is bound, and read as the number. -/
theorem reads_back_number_word :
    ((do setVariable "ten" 5 none; evaluate "ten" : Action Session Answer).exec .new).1.map (·.value) =
      .ok (.number 10) := by
  decide +kernel

end Session

end Reckoner

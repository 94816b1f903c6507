import Reckoner.Proofs.Finite

/-!
# What an evaluation depends on

An evaluation looks up in its memory only what its statement names: `Scope.AgreeOn e` relates two
scopes that `e` cannot tell apart, and `Expr.eval_congr` says that they give one outcome. Topics are
judged by the whole tree, so each of them bounds what was looked up: without the topic of history
nothing is recalled, and what is left to the last topic reads no part of the memory at all
(`Expr.eval_of_closed`).
-/

namespace Reckoner

/-- Whether a name occurs in an expression, as a name or as the word of a quantity. -/
def Expr.mentions (word : String) (e : Expr) : Bool :=
  e.any fun
    | .name w | .quantity _ w => w == word
    | _ => false

namespace Expr
variable (word : String) (op : BinaryOp) (f : Function) (e b : Expr)

@[simp] theorem mentions_number (x : Float) : (number x).mentions word = false := rfl

@[simp] theorem mentions_earlier (r : Recall) : (earlier r).mentions word = false := rfl

@[simp] theorem mentions_name (w : String) : (name w).mentions word = (w == word) :=
  Bool.or_false _

@[simp] theorem mentions_quantity (w : String) :
    (quantity e w).mentions word = (w == word || e.mentions word) := rfl

@[simp] theorem mentions_negate : (negate e).mentions word = e.mentions word := rfl

@[simp] theorem mentions_percent : (percent e).mentions word = e.mentions word := rfl

@[simp] theorem mentions_call : (call f e).mentions word = e.mentions word := rfl

@[simp] theorem mentions_binary :
    (binary op e b).mentions word = (e.mentions word || b.mentions word) := rfl

@[simp] theorem mentions_percentOf :
    (percentOf e b).mentions word = (e.mentions word || b.mentions word) := rfl

end Expr

/-- What holds somewhere in `e'` holds somewhere in `e`. -/
def Expr.Within (e' e : Expr) : Prop := ∀ p, e'.any p = true → e.any p = true

namespace Expr.Within
variable {op : BinaryOp} {f : Function} {word : String} {e b : Expr}

theorem quantity : Within e (.quantity e word) := fun _ h => Bool.or_eq_true_iff.2 (.inr h)

theorem negate : Within e (.negate e) := fun _ h => Bool.or_eq_true_iff.2 (.inr h)

theorem left : Within e (.binary op e b) := fun _ h =>
  Bool.or_eq_true_iff.2 (.inr (Bool.or_eq_true_iff.2 (.inl h)))

theorem right : Within b (.binary op e b) := fun _ h =>
  Bool.or_eq_true_iff.2 (.inr (Bool.or_eq_true_iff.2 (.inr h)))

theorem percent : Within e (.percent e) := fun _ h => Bool.or_eq_true_iff.2 (.inr h)

theorem share : Within e (.percentOf e b) := fun _ h =>
  Bool.or_eq_true_iff.2 (.inr (Bool.or_eq_true_iff.2 (.inl h)))

theorem base : Within b (.percentOf e b) := fun _ h =>
  Bool.or_eq_true_iff.2 (.inr (Bool.or_eq_true_iff.2 (.inr h)))

theorem argument : Within e (.call f e) := fun _ h => Bool.or_eq_true_iff.2 (.inr h)

end Expr.Within

/-- The scopes have the same tables, and agree on the names of `e` and on the history if `e` recalls
it. -/
structure Scope.AgreeOn (e : Expr) (s s' : Scope) : Prop where
  units : s.units = s'.units
  bindings : ∀ word, e.mentions word = true → s.bound? word = s'.bound? word
  history : e.any Topic.isRecall = true → s.memory.history = s'.memory.history

namespace Scope
variable {s s' : Scope}

theorem AgreeOn.inner {e e' : Expr} (h : AgreeOn e s s') (hinner : e'.Within e) :
    AgreeOn e' s s' :=
  ⟨h.units, fun word hword => h.bindings word (hinner _ hword),
    fun hrecall => h.history (hinner _ hrecall)⟩

theorem named?_congr {word : String} (h : s.bound? word = s'.bound? word) :
    s.named? word = s'.named? word := by
  rw [named?, named?, h]

theorem quantity_congr (hunits : s.units = s'.units) {word : String}
    (h : s.bound? word = s'.bound? word) (v : Value) : s.quantity v word = s'.quantity v word := by
  rw [quantity, quantity, h, hunits, named?_congr h]

theorem sumFrom_congr (hunits : s.units = s'.units) (v : Value) (es : List Entry) :
    s.sumFrom v es = s'.sumFrom v es := by
  induction es generalizing v with
  | nil => rfl
  | cons e es ih =>
    rw [sumFrom, sumFrom, hunits]
    cases s'.units.add v e.result with
    | error f => rfl
    | ok w => exact ih w

theorem recalled_congr (hunits : s.units = s'.units)
    (hhistory : s.memory.history = s'.memory.history) (r : Recall) :
    s.recalled r = s'.recalled r := by
  have hsum : s.historySum = s'.historySum := by
    rw [historySum, historySum, hhistory]
    cases s'.memory.history with
    | nil => rfl
    | cons e es =>
      dsimp only
      rw [sumFrom_congr hunits e.result es]
  have hlast : s.memory.lastResult? = s'.memory.lastResult? := by
    rw [Memory.lastResult?, Memory.lastResult?, hhistory]
  unfold recalled
  rw [hsum, hlast, hhistory, hunits]

end Scope

/-- Scopes that agree on what an expression names give it one outcome. -/
theorem Expr.eval_congr {s s' : Scope} {e : Expr} (h : s.AgreeOn e s') : e.eval s = e.eval s' := by
  have hbinary : s.binary = s'.binary := by
    funext op a b
    cases op <;> simp only [Scope.binary, h.units]
  -- the bindings are asked at quantities and names, the history at recalls; the other forms hand
  -- the agreement on to their parts
  fun_induction Expr.eval s e with
  | case1 x => rfl
  | case2 e word ih =>
    have hword : s.bound? word = s'.bound? word := h.bindings word (by simp [mentions, any])
    rw [eval, ih (h.inner .quantity)]
    simp only [Scope.quantity_congr h.units hword]
  | case3 word v hv =>
    have hword : s.bound? word = s'.bound? word := h.bindings word (by simp [mentions, any])
    rw [Scope.named?_congr hword] at hv
    rw [eval, hv]
  | case4 word hv =>
    have hword : s.bound? word = s'.bound? word := h.bindings word (by simp [mentions, any])
    rw [Scope.named?_congr hword] at hv
    rw [eval, hv]
  | case5 r =>
    have hhistory := h.history (by simp [any, Topic.isRecall])
    rw [eval, Scope.recalled_congr h.units hhistory]
  | case6 e ih => rw [eval, ih (h.inner .negate)]
  | case7 op left e ihl ihr =>
    have hpercent : s.AgreeOn e s' := (h.inner .right).inner .percent
    rw [eval, ihl (h.inner .left), ihr hpercent, hbinary]
  | case8 op left right hright ihl ihr =>
    rw [eval, ihl (h.inner .left), ihr (h.inner .right), hbinary]
    exact hright
  | case9 e ih => rw [eval, ih (h.inner .percent)]
  | case10 e base ih ihb => rw [eval, ih (h.inner .share), ihb (h.inner .base)]
  | case11 f e ih =>
    rw [eval, ih (h.inner .argument)]
    simp only [Scope.call, h.units]

namespace Statement
variable {l : Locale} {m m' : Memory} {st : Statement}

theorem valueIn_congr (h : Scope.AgreeOn st.expression ⟨m, l⟩ ⟨m', l⟩) :
    st.valueIn m l = st.valueIn m' l := by
  have heval : st.eval ⟨m, l⟩ = st.eval ⟨m', l⟩ := by
    rw [eval, eval, Expr.eval_congr h, h.units]
  rw [valueIn, valueIn, heval]

end Statement

/-! ### Topics -/

namespace Topic

theorem any_mentionsBound_iff {m : Memory} {e : Expr} :
    e.any (mentionsBound m) = true ↔
      ∃ word, e.mentions word = true ∧ m.bindings.contains word = true := by
  unfold Expr.mentions
  induction e with
  | number x => simp [Expr.any, mentionsBound]
  | earlier r => simp [Expr.any, mentionsBound]
  | name word => simp [Expr.any, mentionsBound]
  | quantity e word ih => simp [Expr.any, mentionsBound, ih, or_and_right, exists_or]
  | negate e ih => simp [Expr.any, mentionsBound, ih]
  | percent e ih => simp [Expr.any, mentionsBound, ih]
  | call f e ih => simp [Expr.any, mentionsBound, ih]
  | binary op left right ihl ihr =>
    simp [Expr.any, mentionsBound, ihl, ihr, or_and_right, exists_or]
  | percentOf e base ih ihb => simp [Expr.any, mentionsBound, ih, ihb, or_and_right, exists_or]

theorem ofStatement_congr {m m' : Memory} {st : Statement}
    (h : ∀ word, st.expression.mentions word = true →
      m.bindings.get? word = m'.bindings.get? word) : ofStatement m st = ofStatement m' st := by
  have hany : st.expression.any (mentionsBound m) = st.expression.any (mentionsBound m') := by
    rw [Bool.eq_iff_iff, any_mentionsBound_iff, any_mentionsBound_iff]
    refine exists_congr fun word => and_congr_right fun hword => ?_
    rw [Dictionary.contains, Dictionary.contains, h word hword]
  have hcovers : covers m st = covers m' st := by
    funext t
    cases t with
    | binding => exact congrArg (st.assignment.isSome || ·) hany
    | _ => rfl
  rw [ofStatement, ofStatement, hcovers]

/-- The topic of history comes first, so that any other topic has nothing recalled. -/
theorem any_isRecall_of_ne_history {m : Memory} {st : Statement}
    (h : ofStatement m st ≠ history) : st.expression.any isRecall = false := by
  refine Bool.eq_false_iff.2 fun hrecall => h ?_
  have hcovers : covers m st history = true := hrecall
  rw [ofStatement, all, List.find?_cons_of_pos hcovers]
  rfl

end Topic

/-- Nothing in an expression is looked up in the memory: it recalls nothing, mentions no bound name,
and has neither percentages nor quantities. -/
structure Expr.Closed (m : Memory) (e : Expr) : Prop where
  history : e.any Topic.isRecall = false
  unbound : e.any (Topic.mentionsBound m) = false
  percentage : e.any Topic.isPercentage = false
  quantity : e.any Topic.isQuantity = false

theorem Expr.Closed.inner {m : Memory} {e e' : Expr} (h : e.Closed m) (hinner : e'.Within e) :
    e'.Closed m := by
  have hnot : ∀ {p}, e.any p = false → e'.any p = false := fun {p} hp =>
    Bool.eq_false_iff.2 fun h' => Bool.eq_false_iff.1 hp (hinner p h')
  exact ⟨hnot h.history, hnot h.unbound, hnot h.percentage, hnot h.quantity⟩

/-- What is left to the last topic neither binds nor converts, and is closed. -/
theorem Topic.closed_of_math {m : Memory} {st : Statement} (h : ofStatement m st = math) :
    st.assignment = none ∧ st.conversion = none ∧ st.expression.Closed m := by
  have hfind : [history, binding, percentage, unit].find? (covers m st) = none := by
    cases hfind : [history, binding, percentage, unit].find? (covers m st) with
    | none => rfl
    | some t =>
      have hfirst : ofStatement m st = t := by
        show (([history, binding, percentage, unit] ++ [math]).find? (covers m st)).getD math = t
        rw [List.find?_append, hfind]
        rfl
      have hmem := List.mem_of_find?_eq_some hfind
      rw [← hfirst, h] at hmem
      exact absurd hmem (by decide)
  have hnot : ∀ t ∈ [history, binding, percentage, unit], covers m st t = false := fun t ht =>
    Bool.eq_false_iff.2 (List.find?_eq_none.1 hfind t ht)
  have hhistory := hnot history (by decide)
  have hbinding := hnot binding (by decide)
  have hpercentage := hnot percentage (by decide)
  have hunit := hnot unit (by decide)
  simp only [covers, Bool.or_eq_false_iff, Option.isSome_eq_false_iff, Option.isNone_iff_eq_none]
    at hhistory hbinding hpercentage hunit
  exact ⟨hbinding.1, hunit.1, hhistory, hbinding.2, hpercentage, hunit.2⟩

/-! ### Plain numbers -/

theorem Value.eq_number {v : Value} (h : v.isNumber = true) : v = .number v.amount := by
  obtain ⟨x, k⟩ := v
  have hk : k = .number := by simpa [isNumber] using h
  rw [hk]
  rfl

theorem gives_isNumber_finite {v : Value} (h : v.isNumber = true) :
    Gives (fun v => v.isNumber = true) (finite v) := by
  intro w hw
  unfold finite at hw
  split at hw
  · cases hw
    exact h
  · exact nomatch hw

/-- Two closed computations in a row, the second one on the number that the first one gives. -/
theorem bind_number {s s' : Outcome Value} {f f' : Value → Outcome Value} {Q : Value → Prop}
    (h : s = s' ∧ Gives (fun v => v.isNumber = true) s)
    (hf : ∀ x, f (.number x) = f' (.number x) ∧ Gives Q (f (.number x))) :
    s >>= f = s' >>= f' ∧ Gives Q (s >>= f) := by
  obtain ⟨rfl, hs⟩ := h
  cases s with
  | error e => exact ⟨rfl, .error e⟩
  | ok v =>
    have hv := Value.eq_number (hs v rfl)
    rw [hv]
    exact hf v.amount

theorem Scope.binary_number {s s' : Scope} (op : BinaryOp) (x y : Float) :
    s.binary op (.number x) (.number y) = s'.binary op (.number x) (.number y) ∧
      Gives (fun v => v.isNumber = true) (s.binary op (.number x) (.number y)) := by
  have hzero : ∀ {v : Value}, v.isNumber = true →
      Gives (fun v => v.isNumber = true)
        (if y == 0 then .error .divisionByZero else .ok v : Outcome Value) := by
    intro v hv
    split
    · exact .error _
    · exact .ok hv
  cases op with
  | divide => exact ⟨rfl, hzero rfl⟩
  | remainder => exact ⟨rfl, hzero rfl⟩
  | _ => exact ⟨rfl, .ok rfl⟩

theorem Scope.call_number {s s' : Scope} (f : Function) (x : Float) :
    s.call f (.number x) = s'.call f (.number x) ∧
      Gives (fun v => v.isNumber = true) (s.call f (.number x)) := by
  cases f <;> exact ⟨rfl, .ok rfl⟩

/-- A closed expression has the same outcome everywhere, and its value is a plain number. -/
theorem Expr.eval_of_closed {s s' : Scope} {e : Expr} (h : e.Closed s.memory)
    (h' : e.Closed s'.memory) :
    e.eval s = e.eval s' ∧ Gives (fun v => v.isNumber = true) (e.eval s) := by
  induction e with
  | number x => exact ⟨rfl, gives_isNumber_finite rfl⟩
  | quantity e word ih => exact absurd h.quantity (by simp [any, Topic.isQuantity])
  | percent e ih => exact absurd h.percentage (by simp [any, Topic.isPercentage])
  | percentOf e base ih ihb => exact absurd h.percentage (by simp [any, Topic.isPercentage])
  | earlier r => exact absurd h.history (by simp [any, Topic.isRecall])
  | name word =>
    -- not bound on either side, so it is a constant or unknown on both
    have hnamed : ∀ {s : Scope}, (Expr.name word).Closed s.memory →
        s.named? word = (constant? word).map .number := by
      intro s hs
      have hbound : s.memory.bindings.get? word = none := by
        simpa [any, Topic.mentionsBound, Dictionary.contains] using hs.unbound
      rw [Scope.named?, Scope.bound?, hbound]
    rw [eval, eval, hnamed h, hnamed h']
    cases constant? word with
    | none => exact ⟨rfl, .error _⟩
    | some x => exact ⟨rfl, gives_isNumber_finite rfl⟩
  | negate e ih =>
    rw [eval, eval]
    have hinner := ih (h.inner .negate) (h'.inner .negate)
    exact bind_number hinner fun x => ⟨rfl, gives_isNumber_finite rfl⟩
  | binary op left right ihl ihr =>
    have hright : ∀ e, right = .percent e → False := by
      rintro e rfl
      exact absurd h.percentage (by simp [any, Topic.isPercentage])
    rw [eval, eval]
    rotate_left
    · exact hright
    · exact hright
    refine bind_number (ihl (h.inner .left) (h'.inner .left)) fun x => ?_
    refine bind_number (ihr (h.inner .right) (h'.inner .right)) fun y => ?_
    exact bind_number (Scope.binary_number op x y) fun z => ⟨rfl, gives_isNumber_finite rfl⟩
  | call f e ih =>
    rw [eval, eval]
    refine bind_number (ih (h.inner .argument) (h'.inner .argument)) fun x => ?_
    exact bind_number (Scope.call_number f x) fun y => ⟨rfl, gives_isNumber_finite rfl⟩

/-- What is left to the last topic has the same outcome in every memory that leaves it there. -/
theorem Statement.valueIn_of_math {l : Locale} {m m' : Memory} {st : Statement}
    (h : Topic.ofStatement m st = .math) (h' : Topic.ofStatement m' st = .math) :
    st.valueIn m l = st.valueIn m' l ∧
      Gives (fun v => v.isNumber = true) (st.valueIn m l) ∧ ∀ v, st.bindIn m v = m := by
  obtain ⟨hassign, hconvert, hclosed⟩ := Topic.closed_of_math h
  obtain ⟨-, -, hclosed'⟩ := Topic.closed_of_math h'
  have heval : st.expression.eval ⟨m, l⟩ = st.expression.eval ⟨m', l⟩ ∧
      Gives (fun v => v.isNumber = true) (st.expression.eval ⟨m, l⟩) :=
    Expr.eval_of_closed hclosed hclosed'
  have hvalue : ∀ m, st.valueIn m l = st.expression.eval ⟨m, l⟩ := by
    intro m
    rw [valueIn, hassign]
    dsimp only
    rw [eval, hconvert]
    cases st.expression.eval ⟨m, l⟩ <;> rfl
  rw [hvalue, hvalue]
  exact ⟨heval.1, heval.2, fun v => by rw [bindIn, hassign]⟩

/-! ### Inputs -/

namespace Memory
variable {l : Locale} {text : String} {m m' : Memory}

/-- Interpreting an input runs its statement and names the first topic that covers it. -/
theorem exec_interpreting_ok {st : Statement} (hst : Statement.ofInput l text = .ok st) :
    ∃ t, Topic.all.find? (Topic.covers m st) = some t ∧
      (interpreting l text).exec m =
        (((st.run l).exec m).1.map fun v => (v, t), ((st.run l).exec m).2) := by
  refine ⟨Topic.ofStatement m st, Topic.find?_all m st, ?_⟩
  rw [exec_interpreting, hst, Statement.exec_run]
  dsimp only
  cases st.valueIn m l <;> rfl

/-- A success is the statement's value under the statement's topic. -/
theorem of_exec_interpreting {v : Value} {t : Topic} {m₁ : Memory}
    (h : (interpreting l text).exec m = (.ok (v, t), m₁)) :
    ∃ st, Statement.ofInput l text = .ok st ∧ st.valueIn m l = .ok v ∧
      t = Topic.ofStatement m st ∧ m₁ = st.bindIn m v := by
  rw [exec_interpreting] at h
  cases hst : Statement.ofInput l text with
  | error e =>
    rw [hst] at h
    cases h
  | ok st =>
    rw [hst] at h
    dsimp only at h
    cases hv : st.valueIn m l with
    | error e =>
      rw [hv] at h
      cases h
    | ok w =>
      rw [hv] at h
      cases h
      exact ⟨st, rfl, hv, rfl, rfl⟩

/-- Two memories are both left as they were, or both get one name bound to one value. -/
def BoundAlike (m m₁ m' m₁' : Memory) : Prop :=
  (m₁ = m ∧ m₁' = m') ∨ ∃ name v, m₁ = m.bind name v ∧ m₁' = m'.bind name v

theorem boundAlike_bindIn (st : Statement) (v : Value) (m m' : Memory) :
    BoundAlike m (st.bindIn m v) m' (st.bindIn m' v) := by
  unfold Statement.bindIn
  cases st.assignment with
  | none => exact .inl ⟨rfl, rfl⟩
  | some name => exact .inr ⟨name, v, rfl, rfl⟩

/-- Memories that agree on what the statement of an input reads give one result and one binding. -/
theorem exec_interpreting_congr (htable : m'.table = m.table) (hrates : m'.rates = m.rates)
    (h : ∀ st, Statement.ofInput l text = .ok st →
      (∀ word, st.expression.mentions word = true →
        m'.bindings.get? word = m.bindings.get? word) ∧
      (st.expression.any Topic.isRecall = true → m'.history = m.history)) :
    ((interpreting l text).exec m').1 = ((interpreting l text).exec m).1 ∧
      BoundAlike m ((interpreting l text).exec m).2 m' ((interpreting l text).exec m').2 := by
  rw [exec_interpreting, exec_interpreting]
  cases hst : Statement.ofInput l text with
  | error e => exact ⟨rfl, .inl ⟨rfl, rfl⟩⟩
  | ok st =>
    obtain ⟨hbound, hhistory⟩ := h st hst
    have hunits : Scope.units ⟨m', l⟩ = Scope.units ⟨m, l⟩ := by
      rw [Scope.units, Scope.units, htable, hrates]
    have hvalue : st.valueIn m' l = st.valueIn m l :=
      Statement.valueIn_congr ⟨hunits, hbound, hhistory⟩
    dsimp only
    rw [hvalue, Topic.ofStatement_congr hbound]
    cases st.valueIn m l with
    | error e => exact ⟨rfl, .inl ⟨rfl, rfl⟩⟩
    | ok v => exact ⟨rfl, boundAlike_bindIn st v m m'⟩

theorem exec_interpreting_history {v : Value} {t : Topic} {m₁ : Memory}
    (h : (interpreting l text).exec m = (.ok (v, t), m₁)) (ht : t ≠ .history)
    (history : List Entry) :
    (interpreting l text).exec { m with history } = (.ok (v, t), { m₁ with history }) := by
  obtain ⟨st, hst, hv, rfl, rfl⟩ := of_exec_interpreting h
  have hrecall := Topic.any_isRecall_of_ne_history ht
  have hvalue : st.valueIn { m with history } l = st.valueIn m l :=
    Statement.valueIn_congr ⟨rfl, fun _ _ => rfl, fun hr => by rw [hrecall] at hr; exact nomatch hr⟩
  have htopic : Topic.ofStatement { m with history } st = Topic.ofStatement m st :=
    Topic.ofStatement_congr fun _ _ => rfl
  have hbind : st.bindIn { m with history } v = { st.bindIn m v with history } := by
    unfold Statement.bindIn
    cases st.assignment <;> rfl
  rw [exec_interpreting, hst]
  dsimp only
  rw [hvalue, hv, htopic]
  exact congrArg (Prod.mk _) hbind

theorem exec_interpreting_math {v : Value} {m₁ : Memory}
    (h : (interpreting l text).exec m = (.ok (v, .math), m₁)) :
    v.isNumber = true ∧ ∀ m' st, Statement.ofInput l text = .ok st →
      Topic.ofStatement m' st = .math → (interpreting l text).exec m' = (.ok (v, .math), m') := by
  obtain ⟨st, hst, hv, ht, -⟩ := of_exec_interpreting h
  refine ⟨(Statement.valueIn_of_math ht.symm ht.symm).2.1 v hv, fun m' st' hst' ht' => ?_⟩
  cases hst.symm.trans hst'
  obtain ⟨hvalue, -, hbind⟩ := Statement.valueIn_of_math (l := l) ht' ht.symm
  rw [exec_interpreting, hst]
  dsimp only
  rw [hvalue, hv, ht']
  exact congrArg (Prod.mk _) (hbind v)

/-- Interpreting an input gives the outcome and the binding of its statement, and names the first
topic that covers the statement. The result depends on the tables, on the names in the statement and,
if it recalls anything, on the history; what is left to the last topic is a plain number that depends
on nothing. -/
theorem exec_interpreting_classifies (l : Locale) (text : String) (m : Memory) :
    (∀ e, Statement.ofInput l text = .error e → (interpreting l text).exec m = (.error e, m)) ∧
    (∀ st, Statement.ofInput l text = .ok st →
      ∃ t, Topic.all.find? (Topic.covers m st) = some t ∧
        (interpreting l text).exec m =
          (((st.run l).exec m).1.map fun v => (v, t), ((st.run l).exec m).2)) ∧
    (∀ m' : Memory, m'.table = m.table → m'.rates = m.rates →
      (∀ st, Statement.ofInput l text = .ok st →
        (∀ word, st.expression.mentions word = true →
          m'.bindings.get? word = m.bindings.get? word) ∧
        (st.expression.any Topic.isRecall = true → m'.history = m.history)) →
      ((interpreting l text).exec m').1 = ((interpreting l text).exec m).1 ∧
        BoundAlike m ((interpreting l text).exec m).2 m' ((interpreting l text).exec m').2) ∧
    (∀ v t m₁, (interpreting l text).exec m = (.ok (v, t), m₁) → t ≠ .history →
      ∀ history, (interpreting l text).exec { m with history } =
        (.ok (v, t), { m₁ with history })) ∧
    ∀ v m₁, (interpreting l text).exec m = (.ok (v, .math), m₁) →
      v.isNumber = true ∧ ∀ m' st, Statement.ofInput l text = .ok st →
        Topic.ofStatement m' st = .math →
          (interpreting l text).exec m' = (.ok (v, .math), m') := by
  refine ⟨fun e he => ?_, fun st => exec_interpreting_ok, fun m' => exec_interpreting_congr,
    fun v t m₁ => exec_interpreting_history, fun v m₁ => exec_interpreting_math⟩
  rw [exec_interpreting, he]

end Memory

end Reckoner

import Reckoner.Proofs.Answering
import Reckoner.Proofs.Formula.Tokens
import Reckoner.Proofs.Grammar.Exact

/-!
# The answer to a formula

A text that writes a formula is answered with the formula's value, in every locale and whatever the
memory holds; where the formula has no value, the answer fails as the formula does
(`exec_answering_formula`). Each stage adds one fact: the tokens of a rendering are within the bounds
(`checkNesting_eq`), they are read as the formula's expression (`Renders.parse_eq`), and that
expression has the value of the formula (`eval_expr`).
-/

namespace Reckoner

namespace Formula

/-! ### Reading -/

/-- The operator in expressions. -/
def Op.binary : Op → BinaryOp
  | add => .add
  | subtract => .subtract
  | multiply => .multiply
  | divide => .divide
  | power => .power

/-- The expression of a formula. -/
def expr : Formula → Expr
  | literal n => .number (Double.ofNat n.value)
  | negate a => .negate a.expr
  | binary op a b => .binary op.binary a.expr b.expr

/-- The phrases of a level. -/
def Level.category : Level → Grammar.Category
  | sum => .sum
  | product => .product
  | power => .power
  | signed => .signed .plain
  | atom => .primary

namespace Piece

/-- The terminal of a piece. -/
def terminal (p : Piece) : Grammar.Terminal := .token p.token

theorem sum?_terminal {p : Piece} {op : Op} (h : p.sum? = some op) :
    p.terminal.sum? = some op.binary := by
  cases p <;> cases h <;> rfl

theorem product?_terminal {p : Piece} {op : Op} (h : p.product? = some op) :
    p.terminal.product? = some op.binary := by
  cases p <;> cases h <;> rfl

theorem terminal_of_isPower {p : Piece} (h : p.isPower = true) : p.terminal = .sign .power := by
  cases p <;> first | rfl | exact nomatch h

theorem word?_token (p : Piece) : p.token.word? = none := by cases p <;> rfl

theorem token_ne_percent (p : Piece) : p.token ≠ .operator .percent := by cases p <;> exact nofun

end Piece

theorem Renders.derives {k : Level} {f : Formula} {w : List Piece} (h : Renders k f w) :
    Grammar.Derives k.category (w.map Piece.terminal) f.expr := by
  induction h with
  | summand _ ih => exact .summand ih
  | factor _ ih => exact .factor ih
  | base _ ih => exact .base ih
  | unsigned _ ih => exact .unsigned (.unsuffixed ih)
  | negate _ ih => exact .minus ih
  | literal => exact .number
  | sum _ hs _ iha ihb =>
    rw [List.map_append, List.map_cons]
    exact .sum iha (Piece.sum?_terminal hs) ihb
  | product _ hs _ iha ihb =>
    rw [List.map_append, List.map_cons]
    exact .product iha (Piece.product?_terminal hs) ihb
  | power _ hs _ iha ihb =>
    rw [List.map_append, List.map_cons, Piece.terminal_of_isPower hs]
    exact .raised iha ihb
  | parens _ ih =>
    rw [List.map_cons, List.map_append]
    exact .group ih

theorem mark_map_token : ∀ ps : List Piece,
    Grammar.mark (ps.map Piece.token) = ps.map Piece.terminal
  | [] => rfl
  | p :: ps => by
    rw [List.map_cons, Grammar.mark, mark_map_token ps, List.map_cons,
      Grammar.Terminal.of_token _ p.token_ne_percent]
    rfl

/-- The tokens of a rendering are read as its formula, without an assignment or a conversion. -/
theorem Renders.parse_eq {f : Formula} {ps : List Piece} (h : Renders .sum f ps) (l : Locale) :
    Statement.parse l (ps.map Piece.token) = .ok ⟨none, f.expr, none⟩ := by
  have hword : ∀ t ∈ ps.map Piece.token, t.word? = none := by
    intro t ht
    obtain ⟨p, -, rfl⟩ := List.mem_map.1 ht
    exact p.word?_token
  have hassigns : Grammar.Assigns (ps.map Piece.token) none (ps.map Piece.token) := by
    refine .unbound fun t rest heq => hword t ?_
    rw [heq]
    exact List.mem_cons_self ..
  have hconverts : Grammar.Converts l (ps.map Piece.token) (ps.map Piece.token) none := by
    refine .unbound fun body t target heq _ _ => hword target ?_
    rw [heq]
    simp
  refine Statement.parse_ok_iff.2 ⟨_, _, hassigns, hconverts, ?_⟩
  rw [mark_map_token]
  exact h.derives

/-! ### Bounds -/

theorem le_deepest (ps : List Piece) (depth : Nat) : depth ≤ deepest depth ps := by
  induction ps generalizing depth with
  | nil => exact Nat.le_refl depth
  | cons p ps ih =>
    cases p with
    | openParen => exact Nat.le_trans (Nat.le_succ depth) (ih (depth + 1))
    | closeParen => exact Nat.le_max_left ..
    | _ => exact ih depth

theorem checkNestingFrom_map_token (ps : List Piece) (depth operators : Nat)
    (hnesting : deepest depth ps ≤ greatestNesting)
    (hsigns : operators + signs ps ≤ greatestOperators) :
    checkNestingFrom depth operators (ps.map Piece.token) = .ok () := by
  induction ps generalizing depth operators with
  | nil => rfl
  | cons p ps ih =>
    cases p with
    | openParen =>
      have hdepth : depth < greatestNesting := (le_deepest ps (depth + 1)).trans hnesting
      show (if depth < greatestNesting then _ else _) = _
      rw [if_pos hdepth]
      exact ih (depth + 1) operators hnesting hsigns
    | closeParen => exact ih (depth - 1) operators ((Nat.le_max_right ..).trans hnesting) hsigns
    | numeral n => exact ih depth operators hnesting hsigns
    | _ =>
      rw [signs, List.countP_cons_of_pos rfl, ← Nat.add_assoc] at hsigns
      show (if operators < greatestOperators then _ else _) = _
      rw [if_pos (by omega)]
      exact ih depth (operators + 1) hnesting (by rw [signs]; omega)

/-- Pieces within the bounds are tokens within the bounds. -/
theorem checkNesting_eq {ps : List Piece} (hnesting : nesting ps ≤ greatestNesting)
    (hsigns : signs ps ≤ greatestOperators) : checkNesting (ps.map Piece.token) = .ok () :=
  checkNestingFrom_map_token ps 0 0 hnesting (by rwa [Nat.zero_add])

/-! ### Evaluation -/

theorem finite_number (x : Float) : finite (.number x) = (checked x).map .number := by
  unfold finite checked
  show (if x.isFinite then _ else _) = _
  split <;> rfl

theorem binary_number (s : Scope) (op : Op) (x y : Float) :
    (s.binary op.binary (.number x) (.number y)).bind finite =
      (op.apply x y).map .number := by
  cases op with
  | divide =>
    show Except.bind (if y == 0 then _ else _) finite = Except.map _ (if y == 0 then _ else _)
    cases y == 0 with
    | true => rfl
    | false => exact finite_number _
  | _ => exact finite_number _

/-- No right operand of a formula is a percentage. -/
theorem eval_binary (s : Scope) (op : BinaryOp) (e : Expr) (b : Formula) :
    (Expr.binary op e b.expr).eval s =
      (e.eval s).bind fun v => (b.expr.eval s).bind fun w => (s.binary op v w).bind finite := by
  cases b <;> rfl

theorem eval_expr (s : Scope) (f : Formula) : f.expr.eval s = f.value.map .number := by
  induction f with
  | literal n => exact finite_number _
  | negate a ih =>
    show ((a.expr.eval s).bind fun v => finite v.negate) =
      (a.value.bind fun x => checked (-x)).map Value.number
    rw [ih]
    cases a.value with
    | error e => rfl
    | ok x => exact finite_number _
  | binary op a b iha ihb =>
    rw [expr, eval_binary, iha, ihb, value]
    cases a.value with
    | error e => rfl
    | ok x =>
      cases b.value with
      | error e => rfl
      | ok y => exact binary_number s op x y

theorem valueIn_expr (f : Formula) (m : Memory) (l : Locale) :
    Statement.valueIn ⟨none, f.expr, none⟩ m l = f.value.map .number := by
  show Statement.eval ⟨m, l⟩ _ = _
  rw [Statement.eval, eval_expr]
  cases f.value <;> rfl

/-! ### Answering -/

theorem Spaced.trim_ne_nil {ps : List Piece} {cs : List Char} (h : Spaced ps cs) (hps : ps ≠ []) :
    Text.trim cs ≠ [] := by
  intro htrim
  have hnil : Spaced ps [] := htrim ▸ h.thins (Text.thins_trim cs)
  generalize htext : [] = ds at hnil
  cases hnil with
  | nil => exact hps rfl
  | @cons bs p ps ds =>
    have htext := (List.append_eq_nil_iff.1 htext.symm).2
    exact p.text_ne_nil (List.append_eq_nil_iff.1 htext).1

theorem Renders.ofInput_eq {f : Formula} {ps : List Piece} (h : Renders .sum f ps) (l : Locale)
    {text : String} (htext : Spaced ps text.toList) (hsize : text.utf8ByteSize ≤ greatestInput)
    (hnesting : nesting ps ≤ greatestNesting) (hsigns : signs ps ≤ greatestOperators) :
    Statement.ofInput l text = .ok ⟨none, f.expr, none⟩ := by
  have hne : ps ≠ [] := by
    rintro rfl
    exact nomatch h.steps
  have hcheck : checkInput text = .ok () := by
    rw [checkInput, if_neg (Nat.not_lt.2 hsize), if_neg (htext.trim_ne_nil hne)]
  have htokens := (htext.normalize l h.steps).significant h.steps
  rw [Statement.ofInput, Reading.ofInput, hcheck]
  dsimp only
  rw [Reading.ofNormal, htokens]
  dsimp only
  rw [Reading.ofTokens, checkNesting_eq hnesting hsigns]
  dsimp only
  rw [h.parse_eq l]
  rfl

/-- A text that writes a formula gets the formula's value as its answer, or fails as the formula
does. -/
theorem exec_answering_formula {f : Formula} {ps : List Piece} (h : Renders .sum f ps) {text : String}
    (htext : Spaced ps text.toList) (hsize : text.utf8ByteSize ≤ greatestInput)
    (hnesting : nesting ps ≤ greatestNesting) (hsigns : signs ps ≤ greatestOperators)
    (d : Display) (l : Locale) (m : Memory) :
    ((Memory.answering d l text).exec m).1.map (·.value) = f.value.map .number := by
  rw [Memory.exec_answering, h.ofInput_eq l htext hsize hnesting hsigns]
  dsimp only
  rw [valueIn_expr]
  cases f.value <;> rfl

theorem exec_answering_formula_power :
    let two : Numeral := ⟨['2'], by decide, List.forall_mem_singleton.2 rfl⟩
    let f := binary .power (negate (literal two)) (literal two)
    ((Memory.answering .standard .french "-2 ** 2").exec .new).1.map (·.value) =
      f.value.map .number := by
  intro two f
  have hbase : Renders .signed (negate (literal two)) [.minus, .numeral two] :=
    .negate (.unsigned .literal)
  have hpower : Renders .power f [.minus, .numeral two, .stars, .numeral two] :=
    .power (s := .stars) hbase rfl (.base (.unsigned .literal))
  have htext : Spaced [.minus, .numeral two, .stars, .numeral two] "-2 ** 2".toList :=
    @Spaced.cons [] .minus _ _ nofun <| @Spaced.cons [] (.numeral two) _ _ nofun <|
      @Spaced.cons [' '] .stars _ _ (List.forall_mem_singleton.2 rfl) <|
      @Spaced.cons [' '] (.numeral two) _ _ (List.forall_mem_singleton.2 rfl) <| @Spaced.nil [] nofun
  exact exec_answering_formula (.summand (.factor hpower)) htext (by decide) (by decide) (by decide)
    .standard .french .new

end Formula

end Reckoner

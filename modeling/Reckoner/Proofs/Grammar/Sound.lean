import Reckoner.Proofs.Double
import Reckoner.Proofs.Grammar.Words

/-!
# What the parser reads is derived

`power_sound`: between the cursors before and after a power there is a phrase that derives it. The
parsers of the other kinds are treated for any parser `p` of powers; later `p` is the power inside
another one, which starts further on.

An operand that ends in the base of `% of` must not be followed by `^`. The parser finds no `^` there
since the base has tried to take it before: where a power ends, no `^` with a power behind it is left
(`Stops`). This is carried along with the phrases that may end in a base.
-/

namespace Reckoner

open Reckoner.Parser

namespace Grammar
variable {c d : Cursor Token} {e : Expr}

theorem quantity_sound (h : quantity c = .ok (e, d)) :
    ∃ w, Spans c w d ∧ Derives .primary w e := by
  obtain ⟨⟨⟨x, scale⟩, unit⟩, hparts, rfl⟩ := map_ok_iff.1 h
  obtain ⟨c₂, hnumber, hunit⟩ := pair_ok_iff.1 hparts
  obtain ⟨c₁, hx, hscale⟩ := pair_ok_iff.1 hnumber
  obtain ⟨t, ht, hx⟩ := (satisfy_spans_iff rfl).1 hx
  obtain rfl := number?_eq_some.1 ht
  rcases optional_ok_iff.1 hscale with ⟨k, rfl, hsome⟩ | ⟨rfl, rfl, hno⟩
  · obtain ⟨t, ht, hk⟩ := (satisfy_spans_iff rfl).1 hsome
    obtain ⟨word, rfl, hfactor⟩ := scaleWord?_eq_some.1 ht
    rcases optional_ok_iff.1 hunit with ⟨u, rfl, hmeasure⟩ | ⟨rfl, rfl, _⟩
    · obtain ⟨t, ht, hu⟩ := (satisfy_spans_iff rfl).1 hmeasure
      exact ⟨_, (hx.trans hk).trans hu, .scaledMeasured hfactor (unitWord?_eq_some.1 ht)⟩
    · exact ⟨_, hx.trans hk, .scaled hfactor⟩
  · have hone : x * (none : Option Float).getD 1 = x := Double.mul_one x
    simp only [hone]
    rcases optional_ok_iff.1 hunit with ⟨u, rfl, hsome⟩ | ⟨rfl, rfl, _⟩
    · obtain ⟨t, ht, hu⟩ := (satisfy_spans_iff rfl).1 hsome
      have hword := unitWord?_eq_some.1 ht
      refine ⟨_, hx.trans hu, .measured hword ?_⟩
      cases hk : scale? u with
      | none => rfl
      | some k =>
        cases hword with
        | identifier _ =>
          -- the word would have been taken as the scale
          have htaken : satisfy scaleWord? c₂ = .ok (k, d) :=
            (satisfy_spans_iff rfl).2 ⟨_, scaleWord?_eq_some.2 ⟨u, rfl, hk⟩, hu⟩
          exact absurd htaken (hno _)
        | inches => exact nomatch hk
    · exact ⟨_, hx, .number⟩

/-! ### Joining from the left -/

section
variable {op : Parser Token BinaryOp} {q : Parser Token Expr} {k j : Category}
  {sign? : Terminal → Option BinaryOp}

/-- Operands `j` joined by signs to phrases `k`. -/
structure Joins (op : Parser Token BinaryOp) (q : Parser Token Expr)
    (sign? : Terminal → Option BinaryOp) (k j : Category) : Prop where
  sign : ∀ {c o d}, op c = .ok (o, d) ↔ ∃ t, sign? t = some o ∧ Spans c [t] d
  operand : ∀ {c e d}, q c = .ok (e, d) → ∃ w, Spans c w d ∧ Derives j w e
  single : ∀ {w e}, Derives j w e → Derives k w e
  join : ∀ {u v t o a b}, Derives k u a → sign? t = some o → Derives j v b →
    Derives k (u ++ t :: v) (.binary o a b)

namespace Joins

theorem pair_sound (hj : Joins op q sign? k j) {o : BinaryOp}
    (h : pair op q c = .ok ((o, e), d)) :
    ∃ t v, sign? t = some o ∧ Derives j v e ∧ Spans c (t :: v) d := by
  obtain ⟨c₁, hop, hq⟩ := pair_ok_iff.1 h
  obtain ⟨t, ht, hop⟩ := hj.sign.1 hop
  obtain ⟨v, hv, hright⟩ := hj.operand hq
  exact ⟨t, v, ht, hright, hop.trans hv⟩

theorem advances (hj : Joins op q sign? k j) : Advances (pair op q) := by
  rintro c ⟨o, e⟩ d h
  obtain ⟨t, v, _, _, hspan⟩ := hj.pair_sound h
  have hlen := hspan.length
  rw [List.length_cons] at hlen
  omega

theorem chain_sound (hj : Joins op q sign? k j) {xs : List (BinaryOp × Expr)}
    (h : Chain (pair op q) c xs d) : ∀ {b : Cursor Token} {u : List Terminal} {a : Expr},
      Spans b u c → Derives k u a → ∃ w, Spans b w d ∧ Derives k w (foldBinary a xs) := by
  induction h with
  | nil c => exact fun hu ha => ⟨_, hu, ha⟩
  | cons hx _ _ _ ih =>
    intro b u a hu ha
    obtain ⟨t, v, ht, hright, hspan⟩ := hj.pair_sound hx
    exact ih (hu.trans hspan) (hj.join ha ht hright)

theorem sound (hj : Joins op q sign? k j)
    (h : map (fun (first, rest) => foldBinary first rest) (pair q (many (pair op q))) c =
      .ok (e, d)) : ∃ w, Spans c w d ∧ Derives k w e := by
  obtain ⟨⟨first, rest⟩, hparts, rfl⟩ := map_ok_iff.1 h
  obtain ⟨c₁, hfirst, hrest⟩ := pair_ok_iff.1 hparts
  obtain ⟨u, hu, hder⟩ := hj.operand hfirst
  exact hj.chain_sound (Chain.of_many hj.advances hrest) hu (hj.single hder)

end Joins

end

/-! ### Signs -/

theorem advances_sign : Advances (satisfy sign?) := by
  intro c negative d h
  obtain ⟨t, _, hspan⟩ := (satisfy_spans_iff rfl).1 h
  have hlen := hspan.length
  rw [List.length_singleton] at hlen
  omega

/-- Signs in front of an operand apply from the last to the first. -/
theorem signs_sound {signs : List Bool} {b : Cursor Token} {w : List Terminal} {ending : Ending}
    (h : Chain (satisfy sign?) c signs d) (hw : Spans d w b) (hder : Derives (.signed ending) w e) :
    ∃ v, Spans c v b ∧ Derives (.signed ending) v (withSigns signs e) := by
  induction h with
  | nil c => exact ⟨w, hw, hder⟩
  | @cons c d _ negative signs hx _ _ _ ih =>
    obtain ⟨v, hv, hder⟩ := ih hw
    obtain ⟨t, ht, hsign⟩ := (satisfy_spans_iff rfl).1 hx
    obtain rfl := sign?_eq_some.1 ht
    cases negative with
    | true => exact ⟨_, hsign.trans hv, .minus hder⟩
    | false => exact ⟨_, hsign.trans hv, .plus hder⟩

/-! ### Around a parser of powers -/

section
variable {p : Parser Token Expr} {Stops : Cursor Token → Prop}
  (hp : ∀ {c e d}, p c = .ok (e, d) → ∃ w, Spans c w d ∧ Derives .power w e ∧ Stops d)
include hp

theorem joins_product : Joins multiplicativeOp p Terminal.product? .product .power where
  sign := multiplicativeOp_ok_iff
  operand h := let ⟨w, hw, hder, _⟩ := hp h; ⟨w, hw, hder⟩
  single := .factor
  join := .product

theorem joins_sum : Joins (satisfy additiveOp?) (multiplicative p) Terminal.sum? .sum .product where
  sign := additiveOp_ok_iff
  operand := (joins_product hp).sound
  single := .summand
  join := .sum

theorem whole_sound (h : whole p c = .ok (e, d)) : ∃ w, Spans c w d ∧ Derives .sum w e :=
  (joins_sum hp).sound (within_ok_iff.1 h)

theorem parenthesized_sound (h : parenthesized p c = .ok (e, d)) :
    ∃ w, Spans c (.token .openParen :: (w ++ [.token .closeParen])) d ∧ Derives .sum w e := by
  obtain ⟨_, c₁, hopen, hrest⟩ := preceded_ok_iff.1 h
  obtain ⟨_, c₂, hinner, hclose⟩ := terminated_ok_iff.1 hrest
  obtain ⟨_, hopen⟩ := (equal_spans_iff (by decide)).1 hopen
  obtain ⟨_, hclose⟩ := (equal_spans_iff (by decide)).1 hclose
  obtain ⟨w, hw, hder⟩ := whole_sound hp hinner
  exact ⟨w, hopen.trans (hw.trans hclose), hder⟩

theorem primary_sound (h : primary p c = .ok (e, d)) :
    ∃ w, Spans c w d ∧ Derives .primary w e := by
  simp only [primary, choice_cons_ok_iff] at h
  rcases h with h | ⟨_, h | ⟨_, h | ⟨_, h | ⟨_, h | ⟨_, h⟩⟩⟩⟩⟩
  · exact quantity_sound h
  · obtain ⟨⟨f, argument⟩, hparts, rfl⟩ := map_ok_iff.1 h
    obtain ⟨c₁, hf, hargument⟩ := pair_ok_iff.1 hparts
    obtain ⟨t, ht, hname⟩ := (satisfy_spans_iff rfl).1 hf
    obtain ⟨name, rfl, hname'⟩ := function?_eq_some.1 ht
    obtain ⟨w, hw, hder⟩ := parenthesized_sound hp hargument
    exact ⟨_, hname.trans hw, .call hname' hder⟩
  · obtain ⟨t, ht, hspan⟩ := (satisfy_spans_iff rfl).1 h
    obtain ⟨k, r, rfl, hr, rfl⟩ := earlier?_eq_some.1 ht
    exact ⟨_, hspan, .earlier hr⟩
  · obtain ⟨⟨inner, unit⟩, hparts, rfl⟩ := map_ok_iff.1 h
    obtain ⟨c₁, hinner, hunit⟩ := pair_ok_iff.1 hparts
    obtain ⟨w, hw, hder⟩ := parenthesized_sound hp hinner
    rcases optional_ok_iff.1 hunit with ⟨u, rfl, hsome⟩ | ⟨rfl, rfl, _⟩
    · obtain ⟨t, ht, hu⟩ := (satisfy_spans_iff rfl).1 hsome
      have hspan := hw.trans hu
      rw [List.cons_append, List.append_assoc] at hspan
      exact ⟨_, hspan, .measuredGroup hder (unitWord?_eq_some.1 ht)⟩
    · exact ⟨_, hw, .group hder⟩
  · obtain ⟨t, ht, hspan⟩ := (satisfy_spans_iff rfl).1 h
    obtain ⟨n, rfl, rfl⟩ := name?_eq_some.1 ht
    exact ⟨_, hspan, .name⟩
  · exact absurd h (choice_nil_refuses _)

theorem suffixed_sound (h : suffixed p c = .ok (e, d)) :
    ∃ w ending, Spans c w d ∧ Derives (.suffixed ending) w e ∧ (ending = .base → Stops d) := by
  obtain ⟨⟨value, suffix⟩, hparts, rfl⟩ := map_ok_iff.1 h
  obtain ⟨c₁, hvalue, hsuffix⟩ := pair_ok_iff.1 hparts
  obtain ⟨u, hu, hder⟩ := primary_sound hp hvalue
  rcases optional_ok_iff.1 hsuffix with ⟨⟨t, base⟩, rfl, hsome⟩ | ⟨rfl, rfl, _⟩
  · obtain ⟨c₂, hpercent, hbase⟩ := pair_ok_iff.1 hsome
    obtain ⟨_, hpercent⟩ := percentSign_ok_iff.1 hpercent
    rcases optional_ok_iff.1 hbase with ⟨b, rfl, hafter⟩ | ⟨rfl, rfl, _⟩
    · obtain ⟨_, c₃, hof, hb⟩ := preceded_ok_iff.1 hafter
      obtain ⟨_, hof⟩ := (equal_spans_iff (by decide)).1 hof
      obtain ⟨v, hv, hbder, hstops⟩ := hp hb
      exact ⟨_, .base, hu.trans (hpercent.trans (hof.trans hv)), .percentOf hder hbder,
        fun _ => hstops⟩
    · exact ⟨_, .plain, hu.trans hpercent, .percent hder, nofun⟩
  · exact ⟨_, .plain, hu, .unsuffixed hder, nofun⟩

theorem unary_sound (h : unary p c = .ok (e, d)) :
    ∃ w ending, Spans c w d ∧ Derives (.signed ending) w e ∧ (ending = .base → Stops d) := by
  obtain ⟨⟨signs, operand⟩, hparts, rfl⟩ := map_ok_iff.1 h
  obtain ⟨c₁, hsigns, hoperand⟩ := pair_ok_iff.1 hparts
  obtain ⟨w, ending, hw, hder, hstops⟩ := suffixed_sound hp hoperand
  obtain ⟨v, hv, hder⟩ := signs_sound (Chain.of_many advances_sign hsigns) hw (.unsigned hder)
  exact ⟨v, ending, hv, hder, hstops⟩

end

/-! ### Powers -/

/-- No `^` with a power behind it starts here. -/
def Stops (d : Cursor Token) : Prop := Refuses (preceded (equal (.operator .power)) power) d

/-- The powers inside a power that starts at `c`. -/
abbrev inner (c : Cursor Token) : Parser Token Expr := below c.rest.length fun d _ => power d

theorem power_eq (c : Cursor Token) :
    power c = map raise
      (pair (unary (inner c)) (optional (preceded (equal (.operator .power)) (inner c)))) c := by
  rw [power]

theorem inner_eq {b : Cursor Token} (h : c.rest.length < b.rest.length) : inner b c = power c :=
  dif_pos h

theorem inner_ok {b : Cursor Token} (h : inner b c = .ok (e, d)) :
    c.rest.length < b.rest.length ∧ power c = .ok (e, d) := by
  by_cases hlt : c.rest.length < b.rest.length
  · exact ⟨hlt, (inner_eq hlt).symm.trans h⟩
  · have hno : inner b c = .error .endOfInput := dif_neg hlt
    exact nomatch hno.symm.trans h

/-- Behind a `^` there are fewer tokens left, so that the inner power is the power. -/
theorem preceded_inner_iff {b : Cursor Token} (h : c.rest.length ≤ b.rest.length) :
    preceded (equal (.operator .power)) (inner b) c = .ok (e, d) ↔
      preceded (equal (.operator .power)) power c = .ok (e, d) := by
  rw [preceded_ok_iff, preceded_ok_iff]
  refine exists_congr fun t => exists_congr fun c₁ => and_congr_right fun hsign => ?_
  obtain ⟨rest, hc, _, rfl⟩ := equal_ok_iff.1 hsign
  have hlt : rest.length < b.rest.length := by
    rw [hc, List.length_cons] at h
    omega
  rw [inner_eq hlt]

theorem power_sound (h : power c = .ok (e, d)) :
    ∃ w, Spans c w d ∧ Derives .power w e ∧ Stops d := by
  induction hn : c.rest.length using Nat.strongRecOn generalizing c e d with
  | ind n ih =>
    subst hn
    have hp : ∀ {c' e d}, inner c c' = .ok (e, d) →
        ∃ w, Spans c' w d ∧ Derives .power w e ∧ Stops d := by
      intro c' e d h
      obtain ⟨hlt, h⟩ := inner_ok h
      exact ih _ hlt h rfl
    rw [power_eq] at h
    obtain ⟨⟨base, exponent⟩, hparts, rfl⟩ := map_ok_iff.1 h
    obtain ⟨c₁, hbase, hexponent⟩ := pair_ok_iff.1 hparts
    obtain ⟨u, ending, hu, hder, hstops⟩ := unary_sound hp hbase
    have hle : c₁.rest.length ≤ c.rest.length := by
      have hlen := hu.length
      omega
    rcases optional_ok_iff.1 hexponent with ⟨b, rfl, hsome⟩ | ⟨rfl, rfl, hno⟩
    · cases ending with
      | base => exact absurd ((preceded_inner_iff hle).1 hsome) (hstops rfl _)
      | plain =>
        obtain ⟨_, c₂, hsign, hb⟩ := preceded_ok_iff.1 hsome
        obtain ⟨_, hsign⟩ := (equal_spans_iff (by decide)).1 hsign
        obtain ⟨v, hv, hbder, hend⟩ := hp hb
        exact ⟨_, hu.trans (hsign.trans hv), .raised hder hbder, hend⟩
    · refine ⟨u, hu, .base hder, fun r hr => ?_⟩
      exact hno r ((preceded_inner_iff hle).2 hr)

/-- An expression that takes all tokens is a derivation of them. -/
theorem expression_sound {ts : List Token} (h : expression ts = .ok (e, d)) (hd : d.rest = []) :
    Derives .sum (mark ts) e := by
  obtain ⟨w, hw, hder⟩ := whole_sound power_sound h
  have hmarks := hw.marks
  rw [hd, mark, List.append_nil] at hmarks
  exact hmarks ▸ hder

end Grammar

end Reckoner

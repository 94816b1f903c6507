import Reckoner.Proofs.Grammar.Sound

/-!
# What is derived the parser reads

`power_complete`: a phrase that derives a power is read as a whole, provided that the terminal behind
it cannot make it longer. For that the terminals that can stand behind a phrase are ranked by how
tightly they bind, and each kind of phrase is followed by terminals up to a rank (`Before`). The end
of the tokens can follow anything.
-/

namespace Reckoner

open Reckoner.Parser

namespace Grammar
variable {c d : Cursor Token} {e : Expr} {w : List Terminal}

/-- How tightly a terminal binds what is before it. -/
def Terminal.rank : Terminal → Nat
  | .token .closeParen => 0
  | .token (.operator .plus) | .token (.operator .minus) => 1
  | .token (.operator .times) | .token (.operator .divide) | .remainder => 2
  | .token (.operator .power) => 3
  | .percent => 4
  | _ => 5

/-- The greatest rank of a terminal that can follow a phrase. -/
def Category.reach : Category → Nat
  | .sum => 0
  | .product => 1
  | .power | .signed .base | .suffixed .base => 2
  | .signed .plain | .suffixed .plain => 3
  | .primary => 4

theorem Terminal.rank_of_sum? {t : Terminal} {o : BinaryOp} (h : t.sum? = some o) : t.rank = 1 := by
  unfold sum? at h
  split at h
  · rfl
  · rfl
  · exact nomatch h

theorem Terminal.rank_of_product? {t : Terminal} {o : BinaryOp} (h : t.product? = some o) :
    t.rank = 2 := by
  unfold product? at h
  split at h
  · rfl
  · rfl
  · rfl
  · exact nomatch h

/-- What is behind the cursor can follow a phrase. -/
def Before (k : Category) (d : Cursor Token) : Prop :=
  ∀ t, (mark d.rest).head? = some t → t.rank ≤ k.reach

namespace Before
variable {k j : Category}

theorem mono (h : Before k d) (hle : k.reach ≤ j.reach) : Before j d :=
  fun t ht => Nat.le_trans (h t ht) hle

theorem of_end (h : d.rest = []) : Before k d := by
  intro t ht
  rw [h] at ht
  exact nomatch ht

theorem of_spans {t : Terminal} (h : Spans d (t :: w) c) (ht : t.rank ≤ k.reach) : Before k d := by
  intro x hx
  rw [h.marks] at hx
  exact Option.some.inj hx ▸ ht

theorem rank_le (h : Before k d) {t : Terminal} (hd : Spans d (t :: w) c) : t.rank ≤ k.reach :=
  h t (by rw [hd.marks]; rfl)

/-- A test that only terminals of higher rank pass. -/
theorem refuses {α : Type} {f : Token → Option α} (h : Before k d)
    (hf : f (.operator .percent) = none)
    (hrank : ∀ t x, f t = some x → k.reach < (Terminal.token t).rank) : Refuses (satisfy f) d := by
  rintro ⟨x, d'⟩ hx
  obtain ⟨t, ht, hspan⟩ := (satisfy_spans_iff hf).1 hx
  have hle := h.rank_le hspan
  have hlt := hrank t x ht
  omega

theorem refuses_equal {t : Token} (h : Before k d) (ht : t ≠ .operator .percent)
    (hrank : k.reach < (Terminal.token t).rank) : Refuses (equal t) d := by
  rintro ⟨x, d'⟩ hx
  have hle := h.rank_le ((equal_spans_iff ht).1 hx).2
  omega

theorem refuses_percentSign (h : Before k d) (hrank : k.reach < 4) : Refuses percentSign d := by
  rintro ⟨x, d'⟩ hx
  have hle := h.rank_le (percentSign_ok_iff.1 hx).2
  change 4 ≤ k.reach at hle
  omega

end Before

theorem UnitWord.rank {t : Token} {unit : String} (h : UnitWord t unit) :
    (Terminal.token t).rank = 5 := by cases h <;> rfl

theorem Before.refuses_unitWord (h : Before .primary d) : Refuses (satisfy unitWord?) d :=
  h.refuses rfl fun t u hu => by
    rw [(unitWord?_eq_some.1 hu).rank]
    decide

theorem Before.refuses_scaleWord (h : Before .primary d) : Refuses (satisfy scaleWord?) d :=
  h.refuses rfl fun t k hk => by
    obtain ⟨word, rfl, _⟩ := scaleWord?_eq_some.1 hk
    exact Nat.lt_succ_self 4

/-! ### Operands -/

theorem token_head {t : Token} (h : Spans c (.token t :: w) d) : c.rest.head? = some t := by
  obtain ⟨rest, hc, _⟩ := h.uncons_token
  rw [hc]; rfl

theorem refuses_of_token {α : Type} {f : Token → Option α} {t : Token}
    (h : Spans c (.token t :: w) d) (hf : f t = none) : Refuses (satisfy f) c :=
  satisfy_refuses fun t' ht' => by
    rw [token_head h] at ht'
    exact Option.some.inj ht' ▸ hf

theorem quantity_refuses {t : Token} (h : Spans c (.token t :: w) d) (ht : number? t = none) :
    Refuses quantity c :=
  (refuses_of_token h ht).pair.pair.map

theorem quantity_of_parts {x : Float} {scale : Option Float} {unit : Option String}
    {c₁ c₂ : Cursor Token} (hx : Spans c [.token (.number x)] c₁)
    (hscale : optional (satisfy scaleWord?) c₁ = .ok (scale, c₂))
    (hunit : optional (satisfy unitWord?) c₂ = .ok (unit, d)) :
    quantity c = .ok (withWord (.number (x * scale.getD 1)) unit, d) := by
  have hnumber : satisfy number? c = .ok (x, c₁) := (satisfy_spans_iff rfl).2 ⟨_, rfl, hx⟩
  exact map_ok_iff.2 ⟨((x, scale), unit),
    pair_ok_iff.2 ⟨c₂, pair_ok_iff.2 ⟨c₁, hnumber, hscale⟩, hunit⟩, rfl⟩

theorem optional_token {α : Type} {f : Token → Option α} {t : Token} {x : α}
    (h : Spans c [.token t] d) (hf : f (.operator .percent) = none) (ht : f t = some x) :
    optional (satisfy f) c = .ok (some x, d) :=
  optional_ok_iff.2 (.inl ⟨x, rfl, (satisfy_spans_iff hf).2 ⟨t, ht, h⟩⟩)

theorem optional_none {α : Type} {p : Parser Token α} (h : Refuses p c) :
    optional p c = .ok (none, c) := optional_ok_iff.2 (.inr ⟨rfl, rfl, h⟩)

theorem UnitWord.scaleWord? {t : Token} {unit : String} (h : UnitWord t unit)
    (hscale : scale? unit = none) : scaleWord? t = none := by
  cases h with
  | identifier => exact hscale
  | inches => rfl

/-! ### Joining from the left -/

/-- Signs with operands `j` behind them. -/
inductive Items (sign? : Terminal → Option BinaryOp) (j : Category) :
    List Terminal → List (BinaryOp × Expr) → Prop where
  | nil : Items sign? j [] []
  | cons {t o v b w xs} : sign? t = some o → Derives j v b → Items sign? j w xs →
      Items sign? j (t :: (v ++ w)) ((o, b) :: xs)

namespace Items
variable {sign? : Terminal → Option BinaryOp} {j : Category} {xs : List (BinaryOp × Expr)}

theorem append {v : List Terminal} {ys : List (BinaryOp × Expr)} (h : Items sign? j w xs)
    (h' : Items sign? j v ys) : Items sign? j (w ++ v) (xs ++ ys) := by
  induction h with
  | nil => exact h'
  | cons ht hb _ ih =>
    rw [List.cons_append, List.append_assoc]
    exact .cons ht hb ih

theorem single {t : Terminal} {o : BinaryOp} {v : List Terminal} {b : Expr} (ht : sign? t = some o)
    (hb : Derives j v b) : Items sign? j (t :: v) [(o, b)] := by
  have h := Items.cons ht hb (.nil : Items sign? j [] [])
  rwa [List.append_nil] at h

end Items

/-- The phrase is an operand `j` and signs with operands behind it. -/
def Spine (sign? : Terminal → Option BinaryOp) (j : Category) (w : List Terminal) (e : Expr) : Prop :=
  ∃ u a v xs, w = u ++ v ∧ Derives j u a ∧ Items sign? j v xs ∧ e = foldBinary a xs

theorem Spine.single {sign? : Terminal → Option BinaryOp} {j : Category} (h : Derives j w e) :
    Spine sign? j w e := ⟨w, e, [], [], (List.append_nil w).symm, h, .nil, rfl⟩

theorem Spine.join {sign? : Terminal → Option BinaryOp} {j : Category} {v : List Terminal}
    {t : Terminal} {o : BinaryOp} {b : Expr} (h : Spine sign? j w e) (ht : sign? t = some o)
    (hb : Derives j v b) : Spine sign? j (w ++ t :: v) (.binary o e b) := by
  obtain ⟨u, a, u', xs, rfl, ha, hxs, rfl⟩ := h
  refine ⟨u, a, u' ++ t :: v, xs ++ [(o, b)], List.append_assoc .., ha, hxs.append (.single ht hb), ?_⟩
  rw [foldBinary, foldBinary, List.foldl_append]
  rfl

theorem Derives.sum_spine : ∀ {w : List Terminal} {e : Expr}, Derives .sum w e →
    Spine Terminal.sum? .product w e
  | _, _, .summand h => .single h
  | _, _, .sum h ht hb => h.sum_spine.join ht hb

theorem Derives.product_spine : ∀ {w : List Terminal} {e : Expr}, Derives .product w e →
    Spine Terminal.product? .power w e
  | _, _, .factor h => .single h
  | _, _, .product h ht hb => h.product_spine.join ht hb

/-- The parser reads phrases of the kind where fewer than `n` tokens are left. -/
def ReadsBelow (n : Nat) (p : Parser Token Expr) (k : Category) : Prop :=
  ∀ {c w e d}, c.rest.length < n → Spans c w d → Derives k w e → Before k d → p c = .ok (e, d)

section
variable {op : Parser Token BinaryOp} {q : Parser Token Expr}
  {sign? : Terminal → Option BinaryOp} {k j : Category} {n : Nat}

/-- Signs that bind tighter than what can follow a phrase `k`, and less than its operands. -/
structure Separates (op : Parser Token BinaryOp) (sign? : Terminal → Option BinaryOp)
    (k j : Category) : Prop where
  sign : ∀ {c o d}, op c = .ok (o, d) ↔ ∃ t, sign? t = some o ∧ Spans c [t] d
  tighter : ∀ {t o}, sign? t = some o → k.reach < t.rank
  looser : ∀ {t o}, sign? t = some o → t.rank ≤ j.reach
  le : k.reach ≤ j.reach

namespace Separates

theorem refuses (hs : Separates op sign? k j) (hd : Before k d) : Refuses (pair op q) d := by
  refine Refuses.pair ?_
  rintro ⟨o, d'⟩ h
  obtain ⟨t, ht, hspan⟩ := hs.sign.1 h
  have hle := hd.rank_le hspan
  have hlt := hs.tighter ht
  omega

theorem before (hs : Separates op sign? k j) {xs : List (BinaryOp × Expr)}
    (hxs : Items sign? j w xs) (hw : Spans c w d) (hd : Before k d) : Before j c := by
  cases hxs with
  | nil => exact hw.eq_of_nil ▸ hd.mono hs.le
  | cons ht _ _ => exact .of_spans hw (hs.looser ht)

theorem chain (hs : Separates op sign? k j) (hq : ReadsBelow n q j) {xs : List (BinaryOp × Expr)}
    (hxs : Items sign? j w xs) (hd : Before k d) : ∀ {c : Cursor Token}, c.rest.length < n →
      Spans c w d → Chain (pair op q) c xs d := by
  induction hxs with
  | nil =>
    intro c _ hw
    rw [hw.eq_of_nil]
    exact .nil c
  | @cons t o v b w xs ht hb hxs ih =>
    intro c hc hw
    obtain ⟨c₁, hsign, hrest⟩ := Spans.split (u := [t]) hw
    obtain ⟨c₂, hv, hrest⟩ := hrest.split
    have hlen := (hsign.trans hv).length
    have hpos := (hsign.trans hv).position
    rw [List.singleton_append, List.length_cons] at hlen hpos
    have hlen₁ := hsign.length
    have hop : op c = .ok (o, c₁) := hs.sign.2 ⟨t, ht, hsign⟩
    have hright : q c₁ = .ok (b, c₂) := hq (by omega) hv hb (hs.before hxs hrest hd)
    exact .cons (pair_ok_iff.2 ⟨c₁, hop, hright⟩) (by omega) (by omega) (ih (by omega) hrest)

theorem reads (hs : Separates op sign? k j) (hq : ReadsBelow n q j)
    (hspine : ∀ {w e}, Derives k w e → Spine sign? j w e) :
    ReadsBelow n (map (fun (first, rest) => foldBinary first rest) (pair q (many (pair op q)))) k := by
  intro c w e d hc hw hder hd
  obtain ⟨u, a, v, xs, rfl, ha, hxs, rfl⟩ := hspine hder
  obtain ⟨c₁, hu, hv⟩ := hw.split
  have hlen := hu.length
  have hfirst : q c = .ok (a, c₁) := hq hc hu ha (hs.before hxs hv hd)
  have hrest : many (pair op q) c₁ = .ok (xs, d) :=
    (hs.chain hq hxs hd (by omega) hv).many_eq (hs.refuses hd)
  exact map_ok_iff.2 ⟨(a, xs), pair_ok_iff.2 ⟨c₁, hfirst, hrest⟩, rfl⟩

end Separates

end

theorem separates_product : Separates multiplicativeOp Terminal.product? .product .power where
  sign := multiplicativeOp_ok_iff
  tighter h := by rw [Terminal.rank_of_product? h]; decide
  looser h := by rw [Terminal.rank_of_product? h]; decide
  le := by decide

theorem separates_sum : Separates (satisfy additiveOp?) Terminal.sum? .sum .product where
  sign := additiveOp_ok_iff
  tighter h := by rw [Terminal.rank_of_sum? h]; decide
  looser h := by rw [Terminal.rank_of_sum? h]; decide
  le := by decide

/-! ### Around a parser of powers -/

theorem primary_of_group {p : Parser Token Expr} {unit : Option String} {c₁ : Cursor Token}
    (hw : Spans c (.token .openParen :: w) d) (hinner : parenthesized p c = .ok (e, c₁))
    (hunit : optional (satisfy unitWord?) c₁ = .ok (unit, d)) :
    primary p c = .ok (withWord e unit, d) := by
  have hno : Refuses quantity c := quantity_refuses hw rfl
  have hcall : Refuses (call p) c := (refuses_of_token hw rfl).pair.map
  have hearlier : Refuses (satisfy earlier?) c := refuses_of_token hw rfl
  have hgroup : group p c = .ok (withWord e unit, d) :=
    map_ok_iff.2 ⟨(e, unit), pair_ok_iff.2 ⟨c₁, hinner, hunit⟩, rfl⟩
  exact choice_cons_ok_iff.2 (.inr ⟨hno, choice_cons_ok_iff.2 (.inr ⟨hcall,
    choice_cons_ok_iff.2 (.inr ⟨hearlier, choice_cons_ok_iff.2 (.inl hgroup)⟩)⟩)⟩)

section
variable {p : Parser Token Expr} {n : Nat} (hp : ReadsBelow n p .power)
include hp

theorem whole_complete : ReadsBelow n (whole p) .sum := fun hc hw hder hd =>
  within_ok_iff.2 (separates_sum.reads (separates_product.reads hp Derives.product_spine)
    Derives.sum_spine hc hw hder hd)

theorem parenthesized_complete (hc : c.rest.length ≤ n)
    (hw : Spans c (.token .openParen :: (w ++ [.token .closeParen])) d) (hder : Derives .sum w e) :
    parenthesized p c = .ok (e, d) := by
  obtain ⟨c₁, hopen, hrest⟩ := Spans.split (u := [.token .openParen]) hw
  obtain ⟨c₂, hinner, hclose⟩ := hrest.split
  have hlen := hopen.length
  rw [List.length_singleton] at hlen
  have hbefore : Before .sum c₂ := .of_spans hclose (Nat.le_refl 0)
  have hwhole : whole p c₁ = .ok (e, c₂) := whole_complete hp (by omega) hinner hder hbefore
  have hopen : equal .openParen c = .ok (.openParen, c₁) :=
    (equal_spans_iff (by decide)).2 ⟨rfl, hopen⟩
  have hclose : equal .closeParen c₂ = .ok (.closeParen, d) :=
    (equal_spans_iff (by decide)).2 ⟨rfl, hclose⟩
  exact preceded_ok_iff.2 ⟨_, c₁, hopen, terminated_ok_iff.2 ⟨_, c₂, hwhole, hclose⟩⟩

theorem primary_complete (hc : c.rest.length ≤ n) (hw : Spans c w d) (hder : Derives .primary w e)
    (hd : Before .primary d) : primary p c = .ok (e, d) := by
  cases hder with
  | @number x =>
    have hq := quantity_of_parts hw (optional_none hd.refuses_scaleWord)
      (optional_none hd.refuses_unitWord)
    rw [Option.getD_none, Double.mul_one] at hq
    exact choice_cons_ok_iff.2 (.inl hq)
  | @scaled x word k hk =>
    obtain ⟨c₁, hx, hword⟩ := Spans.split (u := [.token (.number x)]) hw
    exact choice_cons_ok_iff.2 (.inl (quantity_of_parts hx (optional_token hword rfl hk)
      (optional_none hd.refuses_unitWord)))
  | @measured x t unit ht hk =>
    obtain ⟨c₁, hx, hunit⟩ := Spans.split (u := [.token (.number x)]) hw
    have hno : Refuses (satisfy scaleWord?) c₁ := refuses_of_token hunit (ht.scaleWord? hk)
    have hq := quantity_of_parts hx (optional_none hno)
      (optional_token hunit rfl (unitWord?_eq_some.2 ht))
    rw [Option.getD_none, Double.mul_one] at hq
    exact choice_cons_ok_iff.2 (.inl hq)
  | @scaledMeasured x word k t unit hk ht =>
    obtain ⟨c₁, hx, hrest⟩ := Spans.split (u := [.token (.number x)]) hw
    obtain ⟨c₂, hword, hunit⟩ := Spans.split (u := [.token (.identifier word)]) hrest
    exact choice_cons_ok_iff.2 (.inl (quantity_of_parts hx (optional_token hword rfl hk)
      (optional_token hunit rfl (unitWord?_eq_some.2 ht))))
  | @call name f w e hf hder =>
    have hno : Refuses quantity c := quantity_refuses hw rfl
    obtain ⟨c₁, hname, hrest⟩ := Spans.split (u := [.token (.identifier name)]) hw
    have hlen := hname.length
    have hfun : satisfy function? c = .ok (f, c₁) := (satisfy_spans_iff rfl).2 ⟨.identifier name, hf, hname⟩
    have hargument : parenthesized p c₁ = .ok (e, d) :=
      parenthesized_complete hp (by omega) hrest hder
    have hcall : call p c = .ok (.call f e, d) :=
      map_ok_iff.2 ⟨(f, e), pair_ok_iff.2 ⟨c₁, hfun, hargument⟩, rfl⟩
    exact choice_cons_ok_iff.2 (.inr ⟨hno, choice_cons_ok_iff.2 (.inl hcall)⟩)
  | @earlier k r hr =>
    have hno : Refuses quantity c := quantity_refuses hw rfl
    have hcall : Refuses (call p) c := (refuses_of_token hw rfl).pair.map
    have hrecall : satisfy earlier? c = .ok (.earlier r, d) :=
      (satisfy_spans_iff rfl).2 ⟨_, earlier?_eq_some.2 ⟨k, r, rfl, hr, rfl⟩, hw⟩
    exact choice_cons_ok_iff.2 (.inr ⟨hno, choice_cons_ok_iff.2 (.inr ⟨hcall,
      choice_cons_ok_iff.2 (.inl hrecall)⟩)⟩)
  | @group w e hder =>
    have hparen : parenthesized p c = .ok (e, d) := parenthesized_complete hp hc hw hder
    exact primary_of_group hw hparen (optional_none hd.refuses_unitWord)
  | @measuredGroup w e t unit hder ht =>
    have hw' : Spans c ((.token .openParen :: (w ++ [.token .closeParen])) ++ [.token t]) d := by
      rwa [List.cons_append, List.append_assoc]
    obtain ⟨c₁, hparens, hunit⟩ := hw'.split
    have hparen : parenthesized p c = .ok (e, c₁) := parenthesized_complete hp hc hparens hder
    exact primary_of_group hw hparen (optional_token hunit rfl (unitWord?_eq_some.2 ht))
  | @name n =>
    -- the last alternative: all others have to refuse a name without a parenthesis behind it
    have hno : Refuses quantity c := quantity_refuses hw rfl
    have hcall : Refuses (call p) c := by
      refine Refuses.map (pair_refuses fun f c₁ hf => ?_)
      obtain ⟨t, _, hspan⟩ := (satisfy_spans_iff rfl).1 hf
      rw [hspan.unique hw rfl]
      have hno : Refuses (equal Token.openParen) d := hd.refuses_equal (by decide) (by decide)
      exact hno.preceded
    have hearlier : Refuses (satisfy earlier?) c := refuses_of_token hw rfl
    have hgroup : Refuses (group p) c := (refuses_of_token hw rfl).preceded.pair.map
    have hname : satisfy name? c = .ok (.name n, d) := (satisfy_spans_iff rfl).2 ⟨_, rfl, hw⟩
    exact choice_cons_ok_iff.2 (.inr ⟨hno, choice_cons_ok_iff.2 (.inr ⟨hcall,
      choice_cons_ok_iff.2 (.inr ⟨hearlier, choice_cons_ok_iff.2 (.inr ⟨hgroup,
        choice_cons_ok_iff.2 (.inl hname)⟩)⟩)⟩)⟩)

theorem suffixed_complete {ending : Ending} (hc : c.rest.length ≤ n) (hw : Spans c w d)
    (hder : Derives (.suffixed ending) w e) (hd : Before (.suffixed ending) d) :
    suffixed p c = .ok (e, d) := by
  cases hder with
  | unsuffixed hder =>
    have hvalue : primary p c = .ok (e, d) :=
      primary_complete hp hc hw hder (hd.mono (by decide))
    have hno : Refuses (pair percentSign (optional (preceded (equal (.keyword .ofWord)) p))) d :=
      (hd.refuses_percentSign (by decide)).pair
    exact map_ok_iff.2 ⟨(e, none), pair_ok_iff.2 ⟨d, hvalue, optional_none hno⟩, rfl⟩
  | @percent w e hder =>
    obtain ⟨c₁, hw, hsign⟩ := hw.split
    have hvalue : primary p c = .ok (e, c₁) :=
      primary_complete hp hc hw hder (.of_spans hsign (Nat.le_refl 4))
    have hpercent : percentSign c₁ = .ok (.operator .percent, d) :=
      percentSign_ok_iff.2 ⟨rfl, hsign⟩
    have hno : Refuses (preceded (equal (.keyword .ofWord)) p) d :=
      (hd.refuses_equal (by decide) (by decide)).preceded
    exact map_ok_iff.2 ⟨(e, some (_, none)), pair_ok_iff.2 ⟨c₁, hvalue, optional_ok_iff.2
      (.inl ⟨_, rfl, pair_ok_iff.2 ⟨d, hpercent, optional_none hno⟩⟩)⟩, rfl⟩
  | @percentOf u v a b ha hb =>
    obtain ⟨c₁, hu, hrest⟩ := hw.split
    obtain ⟨c₂, hsign, hrest⟩ := Spans.split (u := [.percent]) hrest
    obtain ⟨c₃, hof, hv⟩ := Spans.split (u := [.token (.keyword .ofWord)]) hrest
    have hlen := (hu.trans (hsign.trans hof)).length
    simp only [List.length_append, List.length_singleton] at hlen
    have hvalue : primary p c = .ok (a, c₁) :=
      primary_complete hp hc hu ha (.of_spans hsign (Nat.le_refl 4))
    have hpercent : percentSign c₁ = .ok (.operator .percent, c₂) :=
      percentSign_ok_iff.2 ⟨rfl, hsign⟩
    have hword : equal (.keyword .ofWord) c₂ = .ok (.keyword .ofWord, c₃) :=
      (equal_spans_iff (by decide)).2 ⟨rfl, hof⟩
    have hbase : p c₃ = .ok (b, d) := hp (by omega) hv hb (hd.mono (Nat.le_refl 2))
    have hsuffix : preceded (equal (.keyword .ofWord)) p c₂ = .ok (b, d) :=
      preceded_ok_iff.2 ⟨_, c₃, hword, hbase⟩
    exact map_ok_iff.2 ⟨(a, some (_, some b)), pair_ok_iff.2 ⟨c₁, hvalue, optional_ok_iff.2
      (.inl ⟨_, rfl, pair_ok_iff.2 ⟨c₂, hpercent, optional_ok_iff.2
        (.inl ⟨b, rfl, hsuffix⟩)⟩⟩)⟩, rfl⟩

end

/-! ### Signs -/

/-- An operand starts with a token that is no sign. -/
theorem Derives.primary_head (h : Derives .primary w e) :
    ∃ t v, w = .token t :: v ∧ sign? t = none := by
  cases h <;> exact ⟨_, _, rfl, rfl⟩

theorem Derives.suffixed_head {ending : Ending} (h : Derives (.suffixed ending) w e) :
    ∃ t v, w = .token t :: v ∧ sign? t = none := by
  cases h with
  | unsuffixed h => exact h.primary_head
  | percent h =>
    obtain ⟨t, v, rfl, ht⟩ := h.primary_head
    exact ⟨t, _, rfl, ht⟩
  | percentOf h _ =>
    obtain ⟨t, v, rfl, ht⟩ := h.primary_head
    exact ⟨t, _, rfl, ht⟩

theorem chain_sign {t : Token} {b : Bool} {signs : List Bool} {c₁ : Cursor Token}
    (ht : sign? t = some b) (hsign : Spans c [.token t] c₁) (h : Chain (satisfy sign?) c₁ signs d) :
    Chain (satisfy sign?) c (b :: signs) d := by
  have hlen := hsign.length
  have hpos := hsign.position
  rw [List.length_singleton] at hlen hpos
  exact .cons ((satisfy_spans_iff rfl).2 ⟨t, ht, hsign⟩) (by omega) (by omega) h

/-- The signs in front of an operand. -/
theorem Derives.signs {ending : Ending} : ∀ {w : List Terminal} {e : Expr} {c : Cursor Token},
    Derives (.signed ending) w e → Spans c w d →
      ∃ signs c₁ u a, Chain (satisfy sign?) c signs c₁ ∧ c₁.rest.length ≤ c.rest.length ∧
        Spans c₁ u d ∧ Derives (.suffixed ending) u a ∧ e = withSigns signs a
  | w, e, c, .unsigned h, hw => ⟨[], c, w, e, .nil c, Nat.le_refl _, hw, h, rfl⟩
  | _, _, c, .minus (w := w) h, hw => by
    obtain ⟨c₁, hsign, hw⟩ := Spans.split (u := [.sign .minus]) hw
    obtain ⟨signs, c₂, u, a, hchain, hle, hu, ha, rfl⟩ := h.signs hw
    have hread : Chain (satisfy sign?) c (true :: signs) c₂ := chain_sign rfl hsign hchain
    exact ⟨true :: signs, c₂, u, a, hread, hle.trans hsign.length_le, hu, ha, rfl⟩
  | _, _, c, .plus (w := w) h, hw => by
    obtain ⟨c₁, hsign, hw⟩ := Spans.split (u := [.sign .plus]) hw
    obtain ⟨signs, c₂, u, a, hchain, hle, hu, ha, rfl⟩ := h.signs hw
    have hread : Chain (satisfy sign?) c (false :: signs) c₂ := chain_sign rfl hsign hchain
    exact ⟨false :: signs, c₂, u, a, hread, hle.trans hsign.length_le, hu, ha, rfl⟩

theorem unary_complete {p : Parser Token Expr} {n : Nat} (hp : ReadsBelow n p .power)
    {ending : Ending} (hc : c.rest.length ≤ n) (hw : Spans c w d)
    (hder : Derives (.signed ending) w e) (hd : Before (.signed ending) d) :
    unary p c = .ok (e, d) := by
  obtain ⟨signs, c₁, u, a, hchain, hle, hu, ha, rfl⟩ := hder.signs hw
  have hstop : Refuses (satisfy sign?) c₁ := by
    obtain ⟨t, v, rfl, ht⟩ := ha.suffixed_head
    exact refuses_of_token hu ht
  have hreach : Before (.suffixed ending) d := by
    cases ending <;> exact hd
  have hoperand : suffixed p c₁ = .ok (a, d) :=
    suffixed_complete hp (Nat.le_trans hle hc) hu ha hreach
  exact map_ok_iff.2 ⟨(signs, a), pair_ok_iff.2 ⟨c₁, hchain.many_eq hstop, hoperand⟩, rfl⟩

/-! ### Powers -/

theorem power_complete (hw : Spans c w d) (hder : Derives .power w e) (hd : Before .power d) :
    power c = .ok (e, d) := by
  induction hn : c.rest.length using Nat.strongRecOn generalizing c w e d with
  | ind n ih =>
    subst hn
    have hp : ReadsBelow c.rest.length (inner c) .power := by
      intro c' w' e' d' hlt hw' hder' hd'
      rw [inner_eq hlt]
      exact ih _ hlt hw' hder' hd' rfl
    rw [power_eq]
    cases hder with
    | @base w e ending hder =>
      have hbase : unary (inner c) c = .ok (e, d) :=
        unary_complete hp (Nat.le_refl _) hw hder (hd.mono (by cases ending <;> decide))
      have hno : Refuses (preceded (equal (.operator .power)) (inner c)) d :=
        (hd.refuses_equal (by decide) (by decide)).preceded
      exact map_ok_iff.2 ⟨(e, none), pair_ok_iff.2 ⟨d, hbase, optional_none hno⟩, rfl⟩
    | @raised u v a b ha hb =>
      obtain ⟨c₁, hu, hrest⟩ := hw.split
      obtain ⟨c₂, hsign, hv⟩ := Spans.split (u := [.sign .power]) hrest
      have hlen := (hu.trans hsign).length
      rw [List.length_append, List.length_singleton] at hlen
      have hbase : unary (inner c) c = .ok (a, c₁) :=
        unary_complete hp (Nat.le_refl _) hu ha (.of_spans hsign (Nat.le_refl 3))
      have hequal : equal (.operator .power) c₁ = .ok (.operator .power, c₂) :=
        (equal_spans_iff (by decide)).2 ⟨rfl, hsign⟩
      have hexponent : inner c c₂ = .ok (b, d) := hp (by omega) hv hb hd
      exact map_ok_iff.2 ⟨(a, some b), pair_ok_iff.2 ⟨c₁, hbase, optional_ok_iff.2
        (.inl ⟨b, rfl, preceded_ok_iff.2 ⟨_, c₂, hequal, hexponent⟩⟩)⟩, rfl⟩

theorem expression_complete {ts : List Token} (h : Derives .sum (mark ts) e) :
    expression ts = .ok (e, ⟨ts.length, []⟩) := by
  have hp : ReadsBelow (ts.length + 1) power .power := fun _ hw hder hd => power_complete hw hder hd
  have hw : Spans ⟨0, ts⟩ (mark ts) ⟨ts.length, []⟩ :=
    ⟨(List.append_nil _).symm, by rw [length_mark]; exact (Nat.zero_add _).symm⟩
  exact whole_complete hp (Nat.lt_succ_self _) hw h (.of_end rfl)

end Grammar

end Reckoner

import Reckoner.Proofs.Grammar.Exact

/-!
# Numbers with a word next to them

A number with a word behind it is a quantity, also where another number is added to it
(`Statement.parse_quantity`, `Statement.parse_sum`). With the word in front it is no statement, since
in a phrase no number stands right behind a name (`Grammar.Derives.isChain`).
-/

namespace Reckoner

namespace Grammar

/-- The second terminal is no number if the first one is a name. -/
def Abuts (s t : Terminal) : Prop := (name? s.origin).isSome = true → number? t.origin = none

/-- The terminal is neither a name nor a number. -/
def Between (t : Terminal) : Prop := name? t.origin = none ∧ number? t.origin = none

theorem Between.join {u v : List Terminal} {t : Terminal} (ht : Between t) (hu : u.IsChain Abuts)
    (hv : v.IsChain Abuts) : (u ++ t :: v).IsChain Abuts := by
  refine List.isChain_append.2 ⟨hu, List.isChain_cons.2 ⟨fun y _ hs => ?_, hv⟩, fun x _ y hy _ => ?_⟩
  · rw [ht.1] at hs
    cases hs
  · cases hy
    exact ht.2

theorem between_of_sum? {t : Terminal} {op : BinaryOp} (h : t.sum? = some op) : Between t := by
  unfold Terminal.sum? at h
  split at h
  · exact ⟨rfl, rfl⟩
  · exact ⟨rfl, rfl⟩
  · cases h

theorem between_of_product? {t : Terminal} {op : BinaryOp} (h : t.product? = some op) :
    Between t := by
  unfold Terminal.product? at h
  split at h
  · exact ⟨rfl, rfl⟩
  · exact ⟨rfl, rfl⟩
  · exact ⟨rfl, rfl⟩
  · cases h

/-- In a phrase no number stands behind a name. -/
theorem Derives.isChain {k : Category} {w : List Terminal} {e : Expr} (h : Derives k w e) :
    w.IsChain Abuts := by
  have hplain : ∀ {t : Terminal}, name? t.origin = none → number? t.origin = none → Between t :=
    fun hname hnumber => ⟨hname, hnumber⟩
  have hbehind : ∀ {x : Float} {v : List Terminal}, v.IsChain Abuts →
      (.token (.number x) :: v).IsChain Abuts := by
    refine fun hv => List.isChain_cons.2 ⟨fun _ _ hs => ?_, hv⟩
    cases hs
  induction h with
  | summand _ ih | factor _ ih | base _ ih | unsigned _ ih | unsuffixed _ ih => exact ih
  | sum _ ht _ ihl ihr => exact (between_of_sum? ht).join ihl ihr
  | product _ ht _ ihl ihr => exact (between_of_product? ht).join ihl ihr
  | raised _ _ ihl ihr => exact (hplain rfl rfl).join ihl ihr
  | minus _ ih | plus _ ih => exact (hplain rfl rfl).join .nil ih
  | percent _ ih => exact (hplain rfl rfl).join ih .nil
  | percentOf _ _ ihl ihr =>
    exact (hplain rfl rfl).join ihl ((hplain rfl rfl).join .nil ihr)
  | number | earlier | name => exact List.isChain_singleton _
  | scaled | measured => exact hbehind (List.isChain_singleton _)
  | scaledMeasured _ hunit =>
    refine hbehind (List.isChain_pair.2 fun _ => ?_)
    cases hunit <;> rfl
  | call _ _ ih =>
    refine List.isChain_cons.2 ⟨fun t ht _ => ?_, (hplain rfl rfl).join .nil ((hplain rfl rfl).join ih .nil)⟩
    cases ht
    rfl
  | group _ ih => exact (hplain rfl rfl).join .nil ((hplain rfl rfl).join ih .nil)
  | measuredGroup _ _ ih =>
    exact (hplain rfl rfl).join .nil ((hplain rfl rfl).join ih (List.isChain_singleton _))

theorem assigns_none {s t : Token} {ts : List Token} (h : t ≠ .operator .assign) :
    Assigns (s :: t :: ts) none (s :: t :: ts) :=
  .unbound fun _ _ heq => by
    cases heq
    exact absurd rfl h

theorem converts_pair (l : Locale) (s t : Token) : Converts l [s, t] [s, t] none :=
  .unbound fun body u target heq hbody => by
    have hlength := congrArg List.length heq
    rw [List.length_append] at hlength
    have hnil : body.length = 0 := by simpa using hlength
    exact absurd (List.length_eq_zero_iff.1 hnil) hbody

end Grammar

namespace Statement
open Grammar
variable {word : String}

section
variable (l : Locale) (hfunction : Function.ofText? word = none) (hscale : scale? word = none)
include hfunction hscale

theorem derives_quantity (x : Float) : Derives .sum
    [.token (.number x), .token (.identifier word)] (.quantity (.number x) word) :=
  .summand (.factor (.base (.unsigned (.unsuffixed (.measured (.identifier hfunction) hscale)))))

theorem parse_quantity (x : Float) : parse l [.number x, .identifier word] =
    .ok ⟨none, .quantity (.number x) word, none⟩ :=
  parse_ok_iff.2 ⟨_, _, assigns_none (by rintro ⟨⟩), converts_pair l _ _,
    derives_quantity hfunction hscale x⟩

/-- A number with a word behind it, and another number added or taken away. -/
theorem parse_sum {o : Operator} (ho : o = .plus ∨ o = .minus) (x y : Float) :
    ∃ op, parse l [.number x, .identifier word, .operator o, .number y] =
      .ok ⟨none, .binary op (.quantity (.number x) word) (.number y), none⟩ := by
  have hright : Derives .product [.token (.number y)] (.number y) :=
    .factor (.base (.unsigned (.unsuffixed .number)))
  have hwrites : ∀ {op}, Terminal.sum? (.sign o) = some op →
      parse l [.number x, .identifier word, .operator o, .number y] =
        .ok ⟨none, .binary op (.quantity (.number x) word) (.number y), none⟩ := by
    intro op hop
    have hmark : mark [.number x, .identifier word, .operator o, .number y] =
        [.token (.number x), .token (.identifier word)] ++ .sign o :: [.token (.number y)] := by
      rcases ho with rfl | rfl <;> rfl
    have hconverts : Converts l [.number x, .identifier word, .operator o, .number y] _ none :=
      .unbound fun body t target heq _ htoken => by
        have hsplit : [Token.number x, .identifier word] ++ [.operator o, .number y] =
            body ++ [t, target] := heq
        obtain ⟨-, htail⟩ := List.append_inj' hsplit rfl
        cases htail
        cases htoken
    exact parse_ok_iff.2 ⟨_, _, assigns_none (by rintro ⟨⟩), hconverts,
      hmark ▸ .sum (derives_quantity hfunction hscale x) hop hright⟩
  rcases ho with rfl | rfl
  · exact ⟨_, hwrites rfl⟩
  · exact ⟨_, hwrites rfl⟩

end

/-- A name with a number behind it is no statement. -/
theorem parse_behind_name (l : Locale) (word : String) (x : Float) :
    ∃ e, parse l [.identifier word, .number x] = .error e := by
  have hassigns : Assigns [.identifier word, .number x] none [.identifier word, .number x] :=
    assigns_none (by rintro ⟨⟩)
  rw [parse_eq (splitAssignment_eq_iff.2 hassigns) (splitConversion_eq_iff.2 (converts_pair l _ _))]
  split
  · exact ⟨_, rfl⟩
  · next e c hexpression =>
    split
    · next hrest =>
      have hchain := (expression_sound hexpression hrest).isChain
      cases List.isChain_pair.1 hchain rfl
    · exact ⟨_, rfl⟩

end Statement

end Reckoner

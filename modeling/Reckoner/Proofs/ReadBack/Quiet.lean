import Mathlib.Data.List.Infix
import Reckoner.Measure.Catalog
import Reckoner.Proofs.ReadBack.Amounts

/-!
# The other rules on a shown number

Comments, signs, words, degrees and underscores play no part in a text that is `Quiet`, so that its
normal form is up to the rules for numbers and symbols (`normalize_quiet`). A shown number is quiet
with any sign or symbol before it and with what a `Trailer` says behind it.
-/

namespace Reckoner.Spelling

open Text (isDecimal isBlank)

/-! ### Quiet texts -/

/-- The characters that the rules for comments, signs, degrees and underscores look for. -/
def ruleChars : List Char := ['\n', '/', '#', '×', '÷', '−', degreeSign, '_']

/-- No rule fires in the text but those for numbers and symbols. -/
structure Quiet (cs : List Char) : Prop where
  chars : ∀ c ∈ cs, c ∉ ruleChars
  phrases : ∀ ds, ds <:+ cs → startsPhrase ds = false

/-- The characters of numbers and the symbols of currencies. -/
def amountChars : List Char :=
  digitChars ++ ['-', '.', ',', ' '] ++ Currency.symbols.map (·.1)

theorem mem_amountChars_of_isDigit {c : Char} (h : c.isDigit = true) : c ∈ amountChars :=
  List.mem_append_left _ (List.mem_append_left _ (mem_digitChars h))

/-- They are quiet, also behind the sign of an exponent. -/
theorem amountChars_quiet : ∀ c ∈ amountChars,
    c ∉ ruleChars ∧ opensNoPhrase [c] = true ∧ opensNoPhrase ['e', c] = true :=
  List.all_iff_forall_prop.1 (by decide)

namespace Quiet
variable {cs ds : List Char}

theorem nil : Quiet [] :=
  ⟨fun _ h => absurd h List.not_mem_nil, fun _ h => List.suffix_nil.1 h ▸ startsPhrase_nil⟩

theorem cons {c : Char} (hc : c ∉ ruleChars) (hphrase : startsPhrase (c :: ds) = false)
    (hds : Quiet ds) : Quiet (c :: ds) := by
  refine ⟨List.forall_mem_cons.2 ⟨hc, hds.chars⟩, fun es hes => ?_⟩
  rcases List.suffix_cons_iff.1 hes with rfl | hes
  · exact hphrase
  · exact hds.phrases es hes

theorem append (hcs : ∀ c ∈ cs, c ∈ amountChars) (hds : Quiet ds) : Quiet (cs ++ ds) := by
  induction cs with
  | nil => exact hds
  | cons c cs ih =>
    obtain ⟨hc, hopens, -⟩ := amountChars_quiet c (hcs c (List.mem_cons_self ..))
    exact .cons hc (startsPhrase_append hopens (cs ++ ds))
      (ih fun x hx => hcs x (List.mem_cons_of_mem _ hx))

/-- No word starts with the sign of an exponent. -/
theorem exponent (hcs : ∀ c ∈ cs, c ∈ amountChars) (hne : cs ≠ []) (hds : Quiet ds) :
    Quiet ('e' :: (cs ++ ds)) := by
  refine .cons (by decide) ?_ (append hcs hds)
  cases cs with
  | nil => exact absurd rfl hne
  | cons c cs =>
    have hopens := (amountChars_quiet c (hcs c (List.mem_cons_self ..))).2.2
    exact startsPhrase_append hopens (cs ++ ds)

theorem not_mem {c : Char} (h : Quiet cs) (hc : c ∈ ruleChars) : c ∉ cs := fun hmem =>
  h.chars c hmem hc

theorem removeComments_eq (h : Quiet cs) : removeComments cs = cs := by
  have hslashes : ¬ ['/', '/'] <:+: cs := fun hin =>
    h.not_mem (by decide) (hin.subset (List.mem_cons_self ..))
  rw [Spelling.removeComments_eq hslashes (h.not_mem (by decide))]
  exact Text.joinLines_eq (h.not_mem (by decide))

theorem map_plainSign (h : Quiet cs) : cs.map plainSign = cs := by
  refine (List.map_congr_left fun c hc => ?_).trans (List.map_id _)
  have hne : ∀ x ∈ ruleChars, c ≠ x := fun x hx heq => h.chars c hc (heq ▸ hx)
  rw [plainSign, if_neg (hne '×' (by decide)), if_neg (hne '÷' (by decide)),
    if_neg (hne '−' (by decide)), id]

end Quiet

/-- The normal form of a quiet text without blanks at its ends. -/
theorem normalize_quiet (l : Locale) {cs : List Char} (h : Quiet cs) (htrim : Text.trim cs = cs) :
    normalize l cs = Text.trim (replaceSymbols (normalizeNumbers l cs)) := by
  unfold normalize
  dsimp only
  rw [h.removeComments_eq, htrim, h.map_plainSign, replaceNumberWords,
    (idle_numberWord h.phrases).sweep_eq, replaceOperatorWords_eq h.phrases,
    replaceDegrees_eq (h.not_mem (by decide)), removeUnderscores_eq (h.not_mem (by decide))]

/-! ### The ends of a text -/

/-- Blanks around a text are left out. -/
theorem trim_between {pre cs post : List Char} (hpre : ∀ c ∈ pre, isBlank c = true)
    (hpost : ∀ c ∈ post, isBlank c = true) (hfirst : cs.head?.any isBlank = false)
    (hlast : cs.getLast?.any isBlank = false) : Text.trim (pre ++ (cs ++ post)) = cs := by
  have hright : Text.trimRight (cs ++ post) = cs := by
    have hpost' : ∀ c ∈ post.reverse, isBlank c = true := fun c hc => hpost c (List.mem_reverse.1 hc)
    rw [Text.trimRight, List.reverse_append, List.dropWhile_append_of_pos hpost']
    rcases List.eq_nil_or_concat cs with rfl | ⟨init, c, rfl⟩
    · rfl
    · rw [List.concat_eq_append, List.getLast?_concat] at hlast
      rw [List.concat_eq_append, List.reverse_concat, List.dropWhile_cons_of_neg (by simpa using hlast),
        List.reverse_cons, List.reverse_reverse]
  rw [Text.trim, Text.trimLeft, List.dropWhile_append_of_pos hpre]
  cases cs with
  | nil =>
    rw [List.nil_append, List.dropWhile_eq_nil_iff.2 hpost]
    rfl
  | cons c cs =>
    rw [List.cons_append, List.dropWhile_cons_of_neg (by simpa using hfirst), ← List.cons_append,
      hright]

theorem trim_eq {cs : List Char} (hfirst : cs.head?.any isBlank = false)
    (hlast : cs.getLast?.any isBlank = false) : Text.trim cs = cs := by
  have hnone : ∀ c ∈ ([] : List Char), isBlank c = true := fun _ h => absurd h List.not_mem_nil
  have htrim := trim_between hnone hnone hfirst hlast
  rwa [List.append_nil, List.nil_append] at htrim

/-- The signs and symbols that stand before a number. -/
def leadChars : List Char := '-' :: Currency.symbols.map (·.1)

theorem mem_leadChars_of_ofSymbol? {symbol : Char} {code : String}
    (h : Currency.ofSymbol? symbol = some code) : symbol ∈ leadChars := by
  obtain ⟨e, he, hsymbol, -⟩ := exists_of_ofSymbol? h
  exact List.mem_cons_of_mem _ (List.mem_map.2 ⟨e, he, hsymbol⟩)

theorem leadChars_facts : ∀ c ∈ leadChars, Text.isWordChar c = false ∧ isDecimal c = false ∧
    isGroupSpace c = false ∧ isBlank c = false ∧ c ∈ amountChars :=
  List.all_iff_forall_prop.1 (by decide +kernel)

section
variable {seps pre number behind : List Char}

theorem before_of_lead (hpre : ∀ c ∈ pre, c ∈ leadChars) : Before pre := fun c hc =>
  have hfacts := leadChars_facts c (hpre c hc)
  ⟨hfacts.1, hfacts.2.1, hfacts.2.2.1⟩

theorem trim_around (hpre : ∀ c ∈ pre, c ∈ leadChars) (hnumber : NumberText seps number)
    (hbehind : behind.getLast?.any isBlank = false) :
    Text.trim (pre ++ (number ++ behind)) = pre ++ (number ++ behind) := by
  cases number with
  | nil => exact nomatch hnumber.first
  | cons c cs =>
    refine trim_eq ?_ ?_
    · cases pre with
      | nil => exact not_isBlank_of_isDigit hnumber.first
      | cons x xs => exact (leadChars_facts x (hpre x (List.mem_cons_self ..))).2.2.2.1
    · rw [List.getLast?_append, List.getLast?_append]
      cases hget : behind.getLast? with
      | some x =>
        rw [hget] at hbehind
        exact hbehind
      | none =>
        have hlast := hnumber.last
        rw [List.getLast?_cons] at hlast ⊢
        exact not_isBlank_of_isDigit hlast

end

/-! ### What is written behind a number -/

/-- What may be written behind a number so that no rule joins the two. -/
structure Trailer (cs : List Char) : Prop where
  behind : Behind cs
  quiet : Quiet cs
  last : cs.getLast?.any isBlank = false

/-- Whether a space of a number stands before a digit at the start of the text. -/
def startsGroup : List Char → Bool
  | a :: b :: _ => isGroupSpace a && isDecimal b
  | _ => false

/-- `Trailer`, place by place. -/
def isTrailer (cs : List Char) : Bool :=
  cs.all (fun c => !('.' :: ',' :: ruleChars).contains c) && !cs.head?.any isDecimal &&
    !cs.getLast?.any isBlank && cs.tails.all fun ds => !startsPhrase ds && !startsGroup ds

theorem Trailer.of_isTrailer {cs : List Char} (h : isTrailer cs = true) : Trailer cs := by
  simp only [isTrailer, Bool.and_eq_true, Bool.not_eq_true', List.all_eq_true, List.mem_tails,
    List.contains_eq_mem, decide_eq_false_iff_not, List.mem_cons, not_or] at h
  obtain ⟨⟨⟨hchars, hdigit⟩, hlast⟩, htails⟩ := h
  refine ⟨⟨fun hmem => (hchars _ hmem).1 rfl, fun hmem => (hchars _ hmem).2.1 rfl, hdigit, ?_⟩,
    ⟨fun c hc => (hchars c hc).2.2, fun ds hds => (htails ds hds).1⟩, hlast⟩
  intro a b rest hsuffix ha
  have hgroup := (htails _ hsuffix).2
  rw [startsGroup, ha] at hgroup
  exact hgroup

theorem trailer_nil : Trailer [] := .of_isTrailer (by decide)

theorem trailer_symbol {symbol : Char} {code : String}
    (h : Currency.ofSymbol? symbol = some code) : Trailer [' ', symbol] := by
  have hsymbols : ∀ c ∈ leadChars, isTrailer [' ', c] = true :=
    List.all_iff_forall_prop.1 (by decide)
  exact .of_isTrailer (hsymbols symbol (mem_leadChars_of_ofSymbol? h))

theorem trailer_code {symbol : Char} {code : String}
    (h : Currency.ofSymbol? symbol = some code) : Trailer (' ' :: code.toList) := by
  have hcodes : ∀ e ∈ Currency.symbols, isTrailer (' ' :: e.2.toList) = true :=
    List.all_iff_forall_prop.1 (by decide)
  obtain ⟨e, he, -, rfl⟩ := exists_of_ofSymbol? h
  exact .of_isTrailer (hcodes e he)

/-- What may be written behind a number with its exponent: nothing, or a unit. -/
def unitTexts : List (List Char) := [] :: Measure.catalog.map fun e => ' ' :: e.1.symbol.toList

theorem unitTexts_facts {u : List Char} (h : u ∈ unitTexts) :
    Trailer u ∧ closesWord u = true ∧ NoSymbol u := by
  have hunits : ∀ u ∈ unitTexts, isTrailer u = true ∧ closesWord u = true ∧
      u.all (fun c => (Currency.ofSymbol? c).isNone) = true :=
    List.all_iff_forall_prop.1 (by decide)
  obtain ⟨htrailer, hcloses, hnone⟩ := hunits u h
  exact ⟨.of_isTrailer htrailer, hcloses, .of_all hnone⟩

/-- The text of an exponent, with its sign. -/
theorem Trailer.exponent {cs behind : List Char} (hcs : ∀ c ∈ cs, c.isDigit = true ∨ c = '-')
    (hne : cs ≠ []) (h : Trailer behind) : Trailer ('e' :: (cs ++ behind)) := by
  have hamount : ∀ c ∈ cs, c ∈ amountChars := fun c hc =>
    (hcs c hc).elim mem_amountChars_of_isDigit fun heq => by rw [heq]; decide
  have hspace : ∀ c ∈ 'e' :: cs, isGroupSpace c = false := by
    refine List.forall_mem_cons.2 ⟨rfl, fun c hc => ?_⟩
    exact (hcs c hc).elim not_isGroupSpace_of_isDigit fun heq => heq ▸ rfl
  have hno : ∀ {x : Char}, x ∉ behind → x.isDigit = false → x ≠ '-' → x ≠ 'e' →
      x ∉ 'e' :: (cs ++ behind) := by
    intro x hx hdigit hminus he hmem
    rcases List.mem_cons.1 hmem with rfl | hmem
    · exact he rfl
    · rcases List.mem_append.1 hmem with hmem | hmem
      · exact (hcs x hmem).elim (fun h => nomatch hdigit.symm.trans h) hminus
      · exact hx hmem
  refine ⟨⟨hno h.behind.point rfl (by decide) (by decide),
    hno h.behind.comma rfl (by decide) (by decide), rfl, Loose.append hspace h.behind.loose⟩,
    .exponent hamount hne h.quiet, ?_⟩
  have hlast := h.last
  rw [← List.cons_append, List.getLast?_append]
  cases hget : behind.getLast? with
  | some c =>
    rw [hget] at hlast
    exact hlast
  | none =>
    rw [List.getLast?_cons, Option.none_or]
    cases hget' : cs.getLast? with
    | none => rfl
    | some c =>
      rcases hcs c (List.mem_of_getLast? hget') with hdigit | rfl
      · exact not_isBlank_of_isDigit hdigit
      · rfl

end Reckoner.Spelling

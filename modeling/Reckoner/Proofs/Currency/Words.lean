import Reckoner.Proofs.Currency.Codes
import Reckoner.Proofs.Measure.Table
import Reckoner.Proofs.ReadBack.Amounts
import Reckoner.Proofs.Substitution

/-!
# Words that start with a currency code

No word of the language and no name of a built-in unit starts with a code that has a symbol
(`meaningless`, `lookup?_eq_none`). Behind a number the code itself thus makes an amount of money in a
new session (`eval_money`), and a longer word that starts with it is the name of nothing
(`eval_unknown`).
-/

namespace Reckoner

theorem Units.resolve?_of_lookup?_eq_none {t : MeasureTable} {rates : Option RateSet} {l : Locale}
    {word : String} (h : t.lookup? l word = none) :
    resolve? ⟨t, rates, l⟩ word = (Currency.resolve? word rates).map .currency := by
  rw [resolve?, h]

theorem Expr.eval_quantity_number (s : Scope) (x : Float) (word : String) :
    eval s (.quantity (.number x) word) =
      if x.isFinite then s.quantity (.number x) word >>= finite else .error .notFinite := by
  rw [eval, eval]
  split
  · next hx => rw [finite_of_finite (v := .number x) hx]; rfl
  · next hx => rw [finite, Value.number, if_neg hx]; rfl

namespace Currency

open Spelling (exists_of_ofSymbol? of_ascii)

/-! ### Words that start with a code -/

/-- The words with a meaning of their own, units and codes apart. -/
def meaningfulWords : List String :=
  Keyword.all.map (·.text) ++ Function.all.map (·.text) ++ scales.map (·.1) ++
    constants.map (·.1) ++ words.map (·.1)

/-- The word is neither a keyword nor a function, scale or constant, nor a word for a currency. -/
structure Meaningless (word : String) : Prop where
  keyword : Keyword.ofText? word = none
  function : Function.ofText? word = none
  scale : scale? word = none
  constant : constant? word = none
  currency : words.find? (·.1 == word) = none

theorem Meaningless.of_not_mem {word : String} (h : word ∉ meaningfulWords) : Meaningless word := by
  have hnone : ∀ {α : Type} {xs : List α} {f : α → String},
      (∀ {w}, w ∈ xs.map f → w ∈ meaningfulWords) → xs.find? (f · == word) = none :=
    fun hxs => List.find?_eq_none.2 fun x hx heq => h (eq_of_beq heq ▸ hxs (List.mem_map_of_mem hx))
  simp only [meaningfulWords, List.mem_append] at hnone
  refine ⟨hnone (.inl ∘ .inl ∘ .inl ∘ .inl), hnone (.inl ∘ .inl ∘ .inl ∘ .inr), ?scale, ?constant,
    hnone .inr⟩
  case scale =>
    rw [scale?, hnone (.inl ∘ .inl ∘ .inr)]
    rfl
  case constant =>
    rw [constant?, hnone (.inl ∘ .inr)]
    rfl

/-- The codes that have a symbol, in small letters. -/
def smallCodes : List (List Char) := symbols.map fun e => e.2.toList.map Char.toLower

/-- The first three characters of a word, in small letters. -/
def initials (word : String) : List Char := (word.toList.take 3).map Char.toLower

theorem initials_lowercase {word : String} (h : ∀ c ∈ word.toList, c.toNat < 0x80) :
    initials (Text.lowercase word) = initials word := by
  rw [initials, Text.lowercase, String.toList_ofList, Text.lowerGo_ascii h, List.reverse_nil,
    List.nil_append, ← List.map_take, List.map_map, initials]
  exact List.map_congr_left fun c hc => of_ascii (P := fun c => c.toLower.toLower = c.toLower)
    (by decide) (h c (List.mem_of_mem_take hc))

/-- No name of a built-in unit starts like a code. -/
theorem initials_of_builtin {k unit : String} (h : MeasureTable.builtin.aliases.get? k = some unit) :
    initials k ∉ smallCodes := by
  have hcatalog : ∀ u ∈ Measure.catalog, (u.1.symbol :: u.2).all (fun name =>
      name.toList.all (fun c => decide (c.toNat < 0x80)) && !smallCodes.contains (initials name)) = true :=
    List.all_iff_forall_prop.1 (by decide)
  obtain ⟨u, hu, name, hname, hk⟩ := MeasureTable.exists_name_of_builtin h
  obtain ⟨hascii, hno⟩ := Bool.and_eq_true_iff.1 (List.all_eq_true.1 (hcatalog u hu) name hname)
  have hsame : initials k = initials name := by
    rcases hk with rfl | rfl
    · rfl
    · exact initials_lowercase fun c hc => of_decide_eq_true (List.all_eq_true.1 hascii c hc)
  rw [hsame]
  simpa using hno

theorem codes_facts : ∀ e ∈ symbols, e.2.toList.length = 3 ∧
    e.2.toList.head?.any Text.isNameStart = true ∧
      e.2.toList.all (fun c => Text.isNamePart c && decide (c.toNat < 0x80)) = true ∧
        resolve? e.2 none = some e.2 ∧
          meaningfulWords.all (fun w => !e.2.toList.isPrefixOf w.toList) = true :=
  List.all_iff_forall_prop.1 (by decide)

section
variable {symbol : Char} {code word : String} (hsymbol : ofSymbol? symbol = some code)
  (hword : code.toList <+: word.toList)
include hsymbol

theorem toList_code : ∃ c cs, code.toList = c :: cs ∧ Text.isNameStart c = true ∧
    code.toList.length = 3 ∧ ∀ x ∈ code.toList, Text.isNamePart x = true ∧ x.toNat < 0x80 := by
  obtain ⟨e, he, -, rfl⟩ := exists_of_ofSymbol? hsymbol
  obtain ⟨hlength, hstart, hchars, -, -⟩ := codes_facts e he
  cases hlist : e.2.toList with
  | nil =>
    rw [hlist] at hlength
    cases hlength
  | cons c cs =>
    rw [hlist] at hlength hstart hchars
    exact ⟨c, cs, rfl, hstart, hlength, fun x hx => by simpa using List.all_eq_true.1 hchars x hx⟩

include hword

/-- A word that starts with a code has no meaning of its own. -/
theorem meaningless : Meaningless word := by
  refine .of_not_mem fun hmem => ?_
  obtain ⟨e, he, -, rfl⟩ := exists_of_ofSymbol? hsymbol
  have hno := List.all_eq_true.1 (codes_facts e he).2.2.2.2 word hmem
  rw [List.isPrefixOf_iff_prefix.2 hword] at hno
  cases hno

theorem lookup?_eq_none (hascii : ∀ c ∈ word.toList, c.toNat < 0x80) :
    MeasureTable.builtin.lookup? .english word = none := by
  have hinitials : initials word ∈ smallCodes := by
    obtain ⟨-, -, -, -, hlength, -⟩ := toList_code hsymbol
    obtain ⟨e, he, -, rfl⟩ := exists_of_ofSymbol? hsymbol
    have htake : word.toList.take 3 = e.2.toList := by
      rw [← hlength]
      exact (List.prefix_iff_eq_take.1 hword).symm
    rw [initials, htake]
    exact List.mem_map_of_mem he
  have hnone : ∀ k, initials k = initials word → MeasureTable.builtin.aliases.get? k = none := by
    intro k hk
    rw [Option.eq_none_iff_forall_ne_some]
    exact fun unit h => initials_of_builtin h (hk ▸ hinitials)
  have hsymbol? : MeasureTable.builtin.symbol? .english word = none := by
    have halias : Locale.unitAlias .english word = none := rfl
    rw [MeasureTable.symbol?, halias, hnone word rfl, hnone _ (initials_lowercase hascii)]
    rfl
  rw [MeasureTable.lookup?, hsymbol?]
  rfl

end

/-! ### Quantities of a new session -/

section
variable {symbol : Char} {code word : String} (hsymbol : ofSymbol? symbol = some code)
include hsymbol

theorem resolve?_code : Units.resolve? ⟨.builtin, none, .english⟩ code = some (.currency code) := by
  obtain ⟨-, -, -, -, -, hchars⟩ := toList_code hsymbol
  have hlookup := lookup?_eq_none hsymbol List.prefix_rfl fun c hc => (hchars c hc).2
  obtain ⟨e, he, -, rfl⟩ := exists_of_ofSymbol? hsymbol
  rw [Units.resolve?_of_lookup?_eq_none hlookup, (codes_facts e he).2.2.2.1, Option.map_some]

theorem eval_money (x : Float) : Expr.eval ⟨.new, .english⟩ (.quantity (.number x) code) =
    finite ⟨x, .currency code⟩ := by
  have hbound : Scope.bound? ⟨.new, .english⟩ code = none := rfl
  have hunits : Scope.units ⟨.new, .english⟩ = ⟨.builtin, none, .english⟩ := rfl
  have hquantity : Scope.quantity ⟨.new, .english⟩ (.number x) code = .ok ⟨x, .currency code⟩ := by
    rw [Scope.quantity, hbound, hunits, resolve?_code hsymbol]
    dsimp only
    rw [Option.isSome_some, if_pos rfl, Units.convertTo, resolve?_code hsymbol]
    rfl
  rw [Expr.eval_quantity_number, hquantity]
  split
  · rfl
  · next hx => exact (if_neg hx).symm

/-- Nothing is named by a longer word that starts with a code. -/
theorem eval_unknown (hword : code.toList <+: word.toList) (hlong : 3 < word.toList.length)
    (hascii : ∀ c ∈ word.toList, c.toNat < 0x80) (x : Float) :
    ∃ e, Expr.eval ⟨.new, .english⟩ (.quantity (.number x) word) = .error e := by
  have hmeaning := meaningless hsymbol hword
  have hknown : known.contains (Text.asciiUpper word) = false := by
    have hlength : ∀ w ∈ known, w.toList.length = 3 :=
      List.all_iff_forall_prop.1 (by decide)
    refine Bool.eq_false_iff.2 fun hmem => ?_
    have hthree := hlength _ (List.contains_iff_mem.1 hmem)
    rw [Text.asciiUpper, String.toList_ofList, List.length_map] at hthree
    omega
  have hcurrency : resolve? word none = none := by
    rw [resolve?, hmeaning.currency]
    dsimp only
    rw [hknown, Option.any_none, Bool.and_false, Bool.or_false, if_neg Bool.false_ne_true]
  have hresolve : Units.resolve? ⟨.builtin, none, .english⟩ word = none := by
    rw [Units.resolve?_of_lookup?_eq_none (lookup?_eq_none hsymbol hword hascii), hcurrency, Option.map_none]
  have hbound : Scope.bound? ⟨.new, .english⟩ word = none := rfl
  have hunits : Scope.units ⟨.new, .english⟩ = ⟨.builtin, none, .english⟩ := rfl
  have hquantity : Scope.quantity ⟨.new, .english⟩ (.number x) word = .error (.unknownUnit word) := by
    rw [Scope.quantity, Scope.named?, hbound, hunits, hresolve]
    dsimp only
    rw [hmeaning.constant]
    rfl
  rw [Expr.eval_quantity_number, hquantity]
  split
  · exact ⟨_, rfl⟩
  · exact ⟨_, rfl⟩

end

/-- A word that a code and letters or digits make is the name of nothing. -/
theorem joined_unknown {symbol : Char} {code : String} (hsymbol : ofSymbol? symbol = some code)
    {more : List Char} (hmore : more ≠ [])
    (hchars : ∀ c ∈ more, Text.isNamePart c = true ∧ c.toNat < 0x80) (x : Float) :
    Meaningless (String.ofList (code.toList ++ more)) ∧ ∃ e, Expr.eval ⟨.new, .english⟩
      (.quantity (.number x) (String.ofList (code.toList ++ more))) = .error e := by
  have hlist : (String.ofList (code.toList ++ more)).toList = code.toList ++ more :=
    String.toList_ofList
  generalize String.ofList (code.toList ++ more) = word at hlist ⊢
  obtain ⟨-, -, -, -, hlength, hcode⟩ := toList_code hsymbol
  have hword : code.toList <+: word.toList := hlist ▸ List.prefix_append ..
  have hlong : 3 < word.toList.length := by
    have hpos := List.length_pos_iff.2 hmore
    rw [hlist, List.length_append]
    omega
  have hascii : ∀ c ∈ word.toList, c.toNat < 0x80 := hlist ▸ List.forall_mem_append.2
    ⟨fun c hc => (hcode c hc).2, fun c hc => (hchars c hc).2⟩
  exact ⟨meaningless hsymbol hword, eval_unknown hsymbol hword hlong hascii x⟩

end Currency

end Reckoner

import Reckoner.Proofs.Tokenizing

/-!
# Blanks separate tokens

No token but a run of blanks goes on over a blank. So a text with a blank in it has the tokens of the
part in front of the blank and then those of the part behind it (`words?_append`).
-/

namespace Reckoner

namespace Token

/-- The tokens without white space. -/
def solidTokens (ls : List Lexeme) : List Token := (ls.map (·.token)).filter fun t => !t.isBlank

/-- The tokens of a text without white space, if the text can be cut into tokens. -/
def words? (cs : List Char) : Option (List Token) := (significant cs).toOption

/-! ### One token after the other -/

/-- The tokens depend neither on the place of the text nor on what stands before it. -/
theorem words?_tokensFrom (cs : List Char) (start column : Nat) (done : List Lexeme) :
    ((tokensFrom cs start column done).map solidTokens).toOption =
      (words? cs).map (solidTokens done.reverse ++ ·) := by
  induction hn : cs.length using Nat.strongRecOn generalizing cs start column done with
  | ind n ih =>
    have hwhole : words? cs = ((tokensFrom cs 0 1 []).map solidTokens).toOption := rfl
    cases cs with
    | nil =>
      rw [hwhole, tokensFrom_nil, tokensFrom_nil]
      simp [Except.map, Except.toOption, solidTokens]
    | cons c cs =>
      cases hs : scan? (c :: cs) with
      | none =>
        rw [hwhole, tokensFrom_of_none hs, tokensFrom_of_none hs]
        rfl
      | some s =>
        have hlt := hn ▸ length_rest_lt hs
        rw [hwhole, tokensFrom_of_scan? hs, tokensFrom_of_scan? hs, ih _ hlt s.rest _ _ _ rfl,
          ih _ hlt s.rest _ _ _ rfl, Option.map_map]
        simp [solidTokens, Function.comp_def]

@[simp] theorem words?_nil : words? [] = some [] := by
  rw [words?, significant, tokens, tokensFrom_nil]
  rfl

theorem words?_of_scan? {cs : List Char} {s : Scanned} (hs : scan? cs = some s) :
    words? cs = (words? s.rest).map ([s.token].filter (fun t => !t.isBlank) ++ ·) := by
  have hwhole : words? cs = ((tokensFrom cs 0 1 []).map solidTokens).toOption := rfl
  rw [hwhole, tokensFrom_of_scan? hs, words?_tokensFrom]
  rfl

theorem words?_of_none {c : Char} {cs : List Char} (hs : scan? (c :: cs) = none) :
    words? (c :: cs) = none := by
  rw [words?, significant, tokens, tokensFrom_of_none hs]
  rfl

/-- Blanks in front of a text are no tokens of it. -/
theorem words?_dropWhile (cs : List Char) : words? (cs.dropWhile Text.isBlank) = words? cs := by
  cases hs : scanBlank cs with
  | none =>
    have hrun : cs.takeWhile Text.isBlank = [] := by
      by_contra hne
      rw [scanBlank, if_neg hne] at hs
      cases hs
    have hcs := List.takeWhile_append_dropWhile (p := Text.isBlank) (l := cs)
    rw [hrun, List.nil_append] at hcs
    rw [hcs]
  | some s =>
    have hscan : scan? cs = some s := by
      rw [scan?, hs]
      rfl
    unfold scanBlank at hs
    dsimp only at hs
    split at hs <;> cases hs
    rw [words?_of_scan? hscan]
    simp [Token.isBlank]

/-! ### In front of a blank -/

/-- Only blanks go on over a blank. -/
theorem blank_startsNone : ∀ b ∈ Spelling.blankCodes.map Char.ofNat, b.isDigit = false ∧ b ∉ signs ∧
    Text.isNameStart b = false ∧ b ≠ '.' ∧ Text.isNamePart b = false :=
  List.all_iff_forall_prop.1 (by decide +kernel)

section
variable {b : Char} (hb : Text.isBlank b = true) (behind : List Char)
include hb

theorem not_startsSolid_blank : ¬ StartsSolid b behind := by
  obtain ⟨hdigit, hsign, hstart, hpoint, -⟩ := blank_startsNone b (Spelling.mem_blankChars hb)
  simp [StartsSolid, hdigit, hsign, hstart, hpoint]

theorem stopsAt_scanWord : StopsAt (b :: behind) scanWord := by
  obtain ⟨-, -, hstart, -, hpart⟩ := blank_startsNone b (Spelling.mem_blankChars hb)
  intro cs
  cases cs with
  | nil => simp [scanWord, hstart]
  | cons x cs =>
    obtain ⟨htake, hdrop⟩ := takeWhile_dropWhile_before hpart behind cs
    rw [List.cons_append, scanWord, scanWord, htake, hdrop]
    split <;> rfl

/-- A token that is no blank ends in front of a blank at the latest. -/
theorem scan?_append_blank {c : Char} (hc : Text.isBlank c = false) (cs : List Char) :
    scan? (c :: cs ++ b :: behind) =
      (scan? (c :: cs)).map fun s => { s with rest := s.rest ++ b :: behind } := by
  have hstop := not_startsSolid_blank hb behind
  have hsolid : StopsAt (b :: behind) fun cs =>
      scanRadix 'x' 16 isHexDigit cs <|> scanRadix 'b' 2 isBinaryDigit cs <|>
        scanRadix 'o' 8 isOctalDigit cs <|> scanDecimal cs <|> scanOperator cs <|> scanParen cs <|>
        scanWord cs :=
    (stopsAt_scanRadix hstop (by simp [radixes])).orElse <|
      (stopsAt_scanRadix hstop (by simp [radixes])).orElse <|
      (stopsAt_scanRadix hstop (by simp [radixes])).orElse <| (stopsAt_scanDecimal hstop).orElse <|
      (stopsAt_scanOperator hstop).orElse <| (stopsAt_scanParen hstop).orElse (stopsAt_scanWord hb behind)
  have hwhole := hsolid (c :: cs)
  rw [scan?, scan?, scanBlank_eq_none hc, List.cons_append, scanBlank_eq_none hc]
  exact hwhole

/-- The tokens in front of a blank come first, and then those behind it. -/
theorem words?_append (cs : List Char) : words? (cs ++ b :: behind) =
    (words? cs).bind fun ts => (words? (b :: behind)).map (ts ++ ·) := by
  induction hn : cs.length using Nat.strongRecOn generalizing cs with
  | ind n ih =>
    cases cs with
    | nil => simp
    | cons c cs =>
      by_cases hc : Text.isBlank c = true
      · have hshort : ((c :: cs).dropWhile Text.isBlank).length < n := by
          rw [List.dropWhile_cons_of_pos hc, ← hn]
          exact Nat.lt_succ_of_le (List.dropWhile_suffix Text.isBlank).length_le
        rw [← words?_dropWhile (c :: cs), ← words?_dropWhile (c :: cs ++ b :: behind),
          List.dropWhile_append]
        split
        · next hnil => simp [List.isEmpty_iff.1 hnil, words?_dropWhile]
        · exact ih _ hshort _ rfl
      · have hsplit := scan?_append_blank hb behind (Bool.eq_false_iff.2 hc) cs
        cases hs : scan? (c :: cs) with
        | none =>
          rw [hs] at hsplit
          have hnone : words? (c :: (cs ++ b :: behind)) = none := words?_of_none hsplit
          rw [words?_of_none hs, List.cons_append, hnone]
          rfl
        | some s =>
          rw [hs] at hsplit
          rw [words?_of_scan? hs, words?_of_scan? hsplit, ih _ (hn ▸ length_rest_lt hs) s.rest rfl]
          cases words? s.rest <;> simp [Function.comp_def]

end

/-- Blanks around a text do not matter. -/
theorem words?_gap {gap : List Char} (hgap : ∀ b ∈ gap, Text.isBlank b = true) (cs : List Char) :
    words? (gap ++ cs) = words? cs := by
  rw [← words?_dropWhile (gap ++ cs), List.dropWhile_append_of_pos hgap, words?_dropWhile]

end Token

end Reckoner

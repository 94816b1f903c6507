import Reckoner.Proofs.Spelling.Operators

/-!
# Words and signs of operators in normal forms

The normal form of a text with an operator word between blanks and that of the text with the sign in
the word's place are the same, or differ in blanks next to the sign only (`normalize_operator`). They
are the same where a comment starts on the operator's line in front of it and takes it away.
-/

namespace Reckoner.Text

/-! ### The first line -/

theorem splitGo_done {sep : Char} : ∀ (cs piece : List Char) (done : List (List Char)),
    splitGo sep cs piece done = done.reverse ++ splitGo sep cs piece []
  | [], piece, done => by simp [splitGo]
  | c :: cs, piece, done => by
    unfold splitGo
    split
    · rw [splitGo_done cs [] (piece.reverse :: done), splitGo_done cs [] [piece.reverse]]
      simp
    · exact splitGo_done cs (c :: piece) done

theorem lines_append_feed {l : List Char} (h : '\n' ∉ l) (cs : List Char) :
    lines (l ++ '\n' :: cs) = dropReturn l :: lines cs := by
  obtain ⟨init, final, hsplit, -⟩ := split_spec '\n' cs
  have hpieces : split '\n' (l ++ '\n' :: cs) = l :: (init ++ [final]) := by
    rw [split, splitGo_append h, splitGo_done, ← hsplit]
    rfl
  unfold lines
  rw [hpieces, hsplit, ← List.cons_append]
  simp only [List.dropLast_concat, List.getLast?_concat]
  cases final <;> rfl

theorem lines_eq_singleton {l : List Char} (h : '\n' ∉ l) (hne : l ≠ []) : lines l = [l] := by
  obtain ⟨init, final, rfl, hlines⟩ := lines_spec l
  have hinit : init = [] := by
    cases init with
    | nil => rfl
    | cons m ms => simp [ended] at h
  subst hinit
  rcases hlines with hlines | ⟨rfl, -⟩
  · simpa [ended] using hlines
  · simp [ended] at hne

theorem lines_ne_nil {cs : List Char} (hcs : cs ≠ []) : lines cs ≠ [] := by
  obtain ⟨init, final, rfl, hlines⟩ := lines_spec cs
  rcases hlines with hlines | ⟨rfl, hlines⟩
  · simp [hlines]
  · rintro hnil
    rw [hlines, List.map_eq_nil_iff] at hnil
    simp [hnil, ended] at hcs

/-- A carriage return at the end of a text is at the end of what stands behind a blank. -/
theorem dropReturn_append_cons (cs : List Char) {c : Char} (hc : c ≠ '\r') (ds : List Char) :
    dropReturn (cs ++ c :: ds) = cs ++ c :: dropReturn ds := by
  rcases List.eq_nil_or_concat ds with rfl | ⟨ds, d, rfl⟩
  · simp [dropReturn, hc]
  · have hlast : (cs ++ c :: (ds ++ [d])).getLast? = some d := by
      rw [← List.cons_append, ← List.append_assoc, List.getLast?_concat]
    rw [List.concat_eq_append, dropReturn, dropReturn, hlast, List.getLast?_concat]
    split
    · rw [← List.cons_append, ← List.append_assoc, List.dropLast_concat, List.dropLast_concat]
    · rfl

end Reckoner.Text

namespace Reckoner.Spelling

open Text (isBlank)

/-! ### Comments around an operator -/

theorem removeComments_append_feed {l : List Char} (h : '\n' ∉ l) (cs : List Char) :
    removeComments (l ++ '\n' :: cs) =
      cutComment (Text.dropReturn l) ++ if cs = [] then [] else '\n' :: removeComments cs := by
  rw [removeComments, Text.lines_append_feed h, List.map_cons]
  split
  · next hnil => simp [hnil, Text.lines, Text.split, Text.splitGo]
  · next hcs =>
    have hne : (Text.lines cs).map cutComment ≠ [] := by
      simpa using Text.lines_ne_nil hcs
    rw [List.intercalate_cons_of_ne_nil hne]
    simp [removeComments]

/-- The text stands on one line and starts no comment. -/
structure Inert (mid : List Char) : Prop where
  line : '\n' ∉ mid
  hash : '#' ∉ mid
  slashes : ¬ ['/', '/'] <:+: mid

/-- A comment of the line starts in front of the text and cuts it off, or it starts behind the text. -/
theorem cutComment_around (a b : List Char) :
    (∃ ds, ∀ mid, Inert mid → cutComment (a ++ ' ' :: (mid ++ ' ' :: b)) = ds) ∨
      ∃ right, ∀ mid, Inert mid →
        cutComment (a ++ ' ' :: (mid ++ ' ' :: b)) = a ++ ' ' :: (mid ++ ' ' :: right) := by
  have hspace : ' ' ≠ '/' := by decide
  by_cases ha : ['/', '/'] <:+: a
  · obtain ⟨cs, rest, rfl, hfirst⟩ := exists_first_slashes ha
    refine .inl ⟨cs, fun mid _ => ?_⟩
    simpa using cutComment_append hfirst (rest ++ ' ' :: (mid ++ ' ' :: b))
  by_cases hb : ['/', '/'] <:+: b
  · obtain ⟨cs, rest, rfl, hfirst⟩ := exists_first_slashes hb
    refine .inr ⟨cs, fun mid hmid => ?_⟩
    have hwhole : ¬ ['/', '/'] <:+: a ++ ' ' :: (mid ++ ' ' :: cs) ++ ['/'] := by
      simpa using no_slashes_append hspace ha (no_slashes_append hspace hmid.slashes hfirst)
    simpa using cutComment_append hwhole rest
  -- without slashes the first `#` ends the line, if there is one
  have hcut : ∀ mid, Inert mid → cutComment (a ++ ' ' :: (mid ++ ' ' :: b)) =
      (a ++ ' ' :: (mid ++ ' ' :: b)).takeWhile (· != '#') := by
    intro mid hmid
    rw [cutComment, beforeSlashes?_eq_none [] (no_slashes_append hspace ha
      (no_slashes_append hspace hmid.slashes hb))]
  by_cases hhash : '#' ∈ a
  · obtain ⟨cs, rest, rfl, hcs⟩ := List.eq_append_cons_of_mem hhash
    refine .inl ⟨cs, fun mid hmid => ?_⟩
    rw [hcut mid hmid, List.append_assoc, List.takeWhile_append_of_pos, List.cons_append,
      List.takeWhile_cons_of_neg (by simp), List.append_nil]
    exact fun c hc => bne_iff_ne.2 fun heq => hcs (heq ▸ hc)
  · refine .inr ⟨b.takeWhile (· != '#'), fun mid hmid => ?_⟩
    have hfront : ∀ c ∈ a ++ ' ' :: (mid ++ [' ']), (c != '#') = true := by
      intro c hc
      refine bne_iff_ne.2 fun heq => ?_
      have hhash' := hmid.hash
      simp [heq, hhash, hhash'] at hc
    rw [hcut mid hmid]
    have htake : (a ++ ' ' :: (mid ++ [' ']) ++ b).takeWhile (· != '#') =
        a ++ ' ' :: (mid ++ [' ']) ++ b.takeWhile (· != '#') := List.takeWhile_append_of_pos hfront
    simpa using htake

/-- Comments take the text away together with the blanks next to it, or leave all three. -/
theorem removeComments_around (a b : List Char) :
    (∃ ds, ∀ mid, Inert mid → removeComments (a ++ ' ' :: (mid ++ ' ' :: b)) = ds) ∨
      ∃ left right, ∀ mid, Inert mid →
        removeComments (a ++ ' ' :: (mid ++ ' ' :: b)) = left ++ ' ' :: (mid ++ ' ' :: right) := by
  induction hlen : a.length using Nat.strongRecOn generalizing a with
  | ind n ih =>
    by_cases ha : '\n' ∈ a
    · -- the first line is in front of the operator
      obtain ⟨l, rest, rfl, hl⟩ := List.eq_append_cons_of_mem ha
      have hline : ∀ mid : List Char, removeComments ((l ++ '\n' :: rest) ++ ' ' :: (mid ++ ' ' :: b)) =
          cutComment (Text.dropReturn l) ++ '\n' :: removeComments (rest ++ ' ' :: (mid ++ ' ' :: b)) := by
        intro mid
        rw [List.append_assoc, List.cons_append, removeComments_append_feed hl, if_neg (by simp)]
      have hshort : rest.length < n := by
        simp only [List.length_append, List.length_cons] at hlen
        omega
      rcases ih _ hshort rest rfl with ⟨ds, hds⟩ | ⟨left, right, hkept⟩
      · refine .inl ⟨cutComment (Text.dropReturn l) ++ '\n' :: ds, fun mid hmid => ?_⟩
        rw [hline, hds mid hmid]
      · refine .inr ⟨cutComment (Text.dropReturn l) ++ '\n' :: left, right, fun mid hmid => ?_⟩
        rw [hline, hkept mid hmid]
        simp
    by_cases hb : '\n' ∈ b
    · -- the operator is on the first line, which ends in `b`
      obtain ⟨l, rest, rfl, hl⟩ := List.eq_append_cons_of_mem hb
      have hline : ∀ mid, Inert mid → removeComments (a ++ ' ' :: (mid ++ ' ' :: (l ++ '\n' :: rest))) =
          cutComment (a ++ ' ' :: (mid ++ ' ' :: Text.dropReturn l)) ++
            if rest = [] then [] else '\n' :: removeComments rest := by
        intro mid hmid
        have hfeed : '\n' ∉ a ++ ' ' :: (mid ++ ' ' :: l) := by simp [ha, hmid.line, hl]
        have hcut := removeComments_append_feed hfeed rest
        rw [Text.dropReturn_append_cons _ (by decide), Text.dropReturn_append_cons _ (by decide)] at hcut
        simpa using hcut
      rcases cutComment_around a (Text.dropReturn l) with ⟨ds, hds⟩ | ⟨right, hkept⟩
      · refine .inl ⟨ds ++ if rest = [] then [] else '\n' :: removeComments rest, fun mid hmid => ?_⟩
        rw [hline mid hmid, hds mid hmid]
      · refine .inr ⟨a, right ++ if rest = [] then [] else '\n' :: removeComments rest,
          fun mid hmid => ?_⟩
        rw [hline mid hmid, hkept mid hmid]
        simp
    · -- there is one line only
      have hline : ∀ mid, Inert mid → removeComments (a ++ ' ' :: (mid ++ ' ' :: b)) =
          cutComment (a ++ ' ' :: (mid ++ ' ' :: b)) := by
        intro mid hmid
        have hfeed : '\n' ∉ a ++ ' ' :: (mid ++ ' ' :: b) := by simp [ha, hmid.line, hb]
        rw [removeComments, Text.lines_eq_singleton hfeed (by simp)]
        simp [List.intercalate]
      rcases cutComment_around a b with ⟨ds, hds⟩ | ⟨right, hkept⟩
      · exact .inl ⟨ds, fun mid hmid => (hline mid hmid).trans (hds mid hmid)⟩
      · exact .inr ⟨a, right, fun mid hmid => (hline mid hmid).trans (hkept mid hmid)⟩

/-! ### Normal forms -/

/-- What the rules behind that for comments make of a text. -/
def respell (l : Locale) (cs : List Char) : List Char :=
  let cs := replaceDegrees (replaceOperatorWords (replaceNumberWords (cs.map plainSign)))
  replaceSymbols (normalizeNumbers l (removeUnderscores cs))

theorem normalize_eq_respell (l : Locale) (cs : List Char) :
    normalize l cs = Text.trim (respell l (Text.trim (removeComments cs))) := rfl

theorem isBlank_plainSign {b : Char} (hb : isBlank b = true) : isBlank (plainSign b) = true := by
  rwa [plainSign_plain b (mem_plainChars_of_isBlank hb)]

theorem sign_solid {sign : Char} (hsign : sign ∈ operatorSigns) : Solid [sign] := by
  obtain ⟨hblank, -⟩ := sign_facts sign hsign
  exact ⟨by simp [hblank], by simp [hblank]⟩

/-- An operator between blanks stands in the normal form as its sign, between the normal forms of the
texts around it. -/
theorem joined_normalize (l : Locale) {mid left right cs : List Char} {sign : Char}
    (hsign : sign ∈ operatorSigns) (hsolid : Solid mid) (hplain : ∀ c ∈ mid, plainSign c = c)
    (hwords : Carries (fun cs => replaceOperatorWords (replaceNumberWords cs)) mid [sign])
    (hcs : removeComments cs = left ++ ' ' :: (mid ++ ' ' :: right)) :
    Joined (Text.trimLeft (respell l (Text.trimLeft left))) [sign]
      (Text.trimRight (respell l (Text.trimRight right))) (normalize l cs) := by
  have hspace : ∀ b ∈ [' '], isBlank b = true := List.forall_mem_singleton.2 rfl
  have hcommented : Joined left mid right (removeComments cs) := by
    rw [hcs]
    exact .mk hspace hspace (fun h => absurd h (by simp)) fun h => absurd h (by simp)
  have hmid : mid.map plainSign = mid := (List.map_congr_left hplain).trans (List.map_id mid)
  have hplained := (hcommented.trim hsolid).map fun _ => isBlank_plainSign
  rw [hmid] at hplained
  rw [normalize_eq_respell]
  exact (carries_rest hsign l (hwords hplained)).trim (sign_solid hsign)

/-- The texts are the same, or they are the same two texts around the sign, with other blanks next
to it. -/
def SameAround (sign : Char) (cs ds : List Char) : Prop :=
  cs = ds ∨ ∃ left right, Joined left [sign] right cs ∧ Joined left [sign] right ds

/-- An operator word between blanks means its sign, whatever stands around it. -/
theorem normalize_operator (l : Locale) {ws : List String} {sign : Char}
    (he : (ws, sign) ∈ operatorWords) {phrase : List Char} (hphrase : Phrase foldsTo ws phrase)
    (hline : '\n' ∉ phrase) (a b : List Char) :
    SameAround sign (normalize l (a ++ ' ' :: (phrase ++ ' ' :: b)))
      (normalize l (a ++ ' ' :: sign :: ' ' :: b)) := by
  have hsign : sign ∈ operatorSigns := (operatorWords_facts _ he).1
  have hfacts := phrase_facts he hphrase
  obtain ⟨hsigns, hphrases⟩ := carries_operatorWords he hphrase
  have hinert : Inert phrase := by
    refine ⟨hline, fun hmem => (hfacts _ hmem).2 (by simp), fun hin => ?_⟩
    exact (hfacts '/' (hin.subset (by simp))).2 (by simp)
  have hsignFacts : ∀ m ∈ operatorSigns, plainSign m = m ∧ m ∉ ['\n', '#'] :=
    List.all_iff_forall_prop.1 (by decide)
  have hinertSign : Inert [sign] := by
    obtain ⟨-, hnone⟩ := hsignFacts sign hsign
    refine ⟨fun hmem => hnone ?_, fun hmem => hnone ?_, fun hin => absurd hin.length_le (by simp)⟩
    · simp [← List.mem_singleton.1 hmem]
    · simp [← List.mem_singleton.1 hmem]
  rcases removeComments_around a b with ⟨ds, hds⟩ | ⟨left, right, hkept⟩
  · have hsame : removeComments (a ++ ' ' :: (phrase ++ ' ' :: b)) =
        removeComments (a ++ ' ' :: sign :: ' ' :: b) := (hds phrase hinert).trans (hds [sign] hinertSign).symm
    rw [normalize_eq_respell, normalize_eq_respell, hsame]
    exact .inl rfl
  · refine .inr ⟨_, _, joined_normalize l hsign (solid_phrase he hphrase) (fun c hc => (hfacts c hc).1)
      ((carries_numberWords he hphrase).comp hphrases) (hkept phrase hinert), ?_⟩
    refine joined_normalize l hsign (sign_solid hsign) ?_
      ((carries_numberWords_sign hsign).comp hsigns) (hkept [sign] hinertSign)
    exact List.forall_mem_singleton.2 (hsignFacts sign hsign).1

end Reckoner.Spelling

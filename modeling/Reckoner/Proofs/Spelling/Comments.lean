import Reckoner.Proofs.Spelling.Stretches

/-!
# Where comments start

A comment starts at the first `#` or `//` of its line. The lines are cut at their first `//` where they
have one, and at their first `#` only where they have none, so that a `#` in front of the first `//`
is passed over (`ShadowedHash`). Such a `#` is still there in the normal form, since no rule takes it;
on all other texts what stands behind a marker plays no part (`normalize_cut_iff`).
-/

namespace Reckoner.Text

/-! ### Texts from their lines -/

section
variable {sep : Char}

theorem splitGo_append {l : List Char} (h : sep ∉ l) (rest : List Char) :
    ∀ (piece : List Char) (done : List (List Char)),
      splitGo sep (l ++ sep :: rest) piece done =
        splitGo sep rest [] ((piece.reverse ++ l) :: done) := by
  induction l with
  | nil =>
    intro piece done
    rw [List.nil_append, splitGo, if_pos rfl, List.append_nil]
  | cons c l ih =>
    intro piece done
    have hc : c ≠ sep := fun hc => h (hc ▸ List.mem_cons_self ..)
    rw [List.cons_append, splitGo, if_neg hc, ih (fun hmem => h (List.mem_cons_of_mem _ hmem))]
    simp

theorem splitGo_ended {ls : List (List Char)} (h : ∀ l ∈ ls, sep ∉ l) :
    ∀ done, splitGo sep (ended sep ls) [] done = done.reverse ++ ls ++ [[]] := by
  induction ls with
  | nil =>
    intro done
    rw [ended, List.flatMap_nil, splitGo]
    simp
  | cons l ls ih =>
    intro done
    have hsplit : ended sep (l :: ls) = l ++ sep :: ended sep ls := by
      simp [ended]
    rw [hsplit, splitGo_append (h l (List.mem_cons_self ..)),
      ih fun l' hl' => h l' (List.mem_cons_of_mem _ hl')]
    simp

theorem not_mem_of_mem_splitGo : ∀ {cs piece : List Char} {done : List (List Char)},
    sep ∉ piece → (∀ l ∈ done, sep ∉ l) → ∀ l ∈ splitGo sep cs piece done, sep ∉ l
  | [], piece, done, hpiece, hdone => by
    intro l hl
    rw [splitGo, List.mem_reverse] at hl
    rcases List.mem_cons.1 hl with rfl | hl
    · exact fun hmem => hpiece (List.mem_reverse.1 hmem)
    · exact hdone l hl
  | c :: cs, piece, done, hpiece, hdone => by
    rw [splitGo]
    split
    · refine not_mem_of_mem_splitGo List.not_mem_nil (List.forall_mem_cons.2 ⟨?_, hdone⟩)
      exact fun hmem => hpiece (List.mem_reverse.1 hmem)
    · next hc =>
      refine not_mem_of_mem_splitGo (fun hmem => ?_) hdone
      rcases List.mem_cons.1 hmem with heq | hmem
      · exact hc heq.symm
      · exact hpiece hmem

end

/-- No line has a line feed. -/
theorem not_mem_of_mem_lines {cs l : List Char} (h : l ∈ lines cs) : '\n' ∉ l := by
  have hpieces : ∀ p ∈ split '\n' cs, '\n' ∉ p :=
    not_mem_of_mem_splitGo List.not_mem_nil fun _ h => absurd h List.not_mem_nil
  have hended : ∀ p ∈ (split '\n' cs).dropLast.map dropReturn, '\n' ∉ p := by
    intro p hp
    obtain ⟨q, hq, rfl⟩ := List.mem_map.1 hp
    exact fun hmem => hpieces q (List.mem_of_mem_dropLast hq)
      ((isPrefix_dropReturn q).subset hmem)
  unfold lines at h
  dsimp only at h
  split at h
  · exact hended l h
  · exact hended l h
  · next hlast =>
    rcases List.mem_append.1 h with h | h
    · exact hended l h
    · rw [List.mem_singleton.1 h]
      exact hpieces _ (List.mem_of_getLast? hlast)

/-- Lines without line feeds are the lines of a text. -/
theorem exists_lines_eq {ls : List (List Char)} (h : ∀ l ∈ ls, '\n' ∉ l) : ∃ cs, lines cs = ls := by
  -- with a carriage return of its own each line keeps the one that it may end with
  have hreturn : ∀ l ∈ ls.map (· ++ ['\r']), '\n' ∉ l := by
    intro l hl
    obtain ⟨m, hm, rfl⟩ := List.mem_map.1 hl
    simp [h m hm]
  have hdrop : ∀ l : List Char, dropReturn (l ++ ['\r']) = l := fun l => by
    rw [dropReturn, List.getLast?_concat, if_pos rfl, List.dropLast_concat]
  refine ⟨ended '\n' (ls.map (· ++ ['\r'])), ?_⟩
  have hlines : (ls.map (· ++ ['\r'])).map dropReturn = ls := by
    rw [List.map_map]
    exact (List.map_congr_left fun l _ => hdrop l).trans (List.map_id _)
  rw [lines, split, splitGo_ended hreturn]
  simpa using hlines

theorem mem_intercalate_iff {x sep : Char} (hx : x ≠ sep) :
    ∀ {ls : List (List Char)}, x ∈ [sep].intercalate ls ↔ ∃ l ∈ ls, x ∈ l
  | [] => by simp [List.intercalate]
  | [l] => by simp [List.intercalate_singleton]
  | l :: l' :: ls => by
    rw [List.intercalate_cons_of_ne_nil (List.cons_ne_nil l' ls), List.mem_append, List.mem_append,
      mem_intercalate_iff hx]
    simp [hx]

end Reckoner.Text

namespace Reckoner.Spelling

open Text (isBlank)

/-! ### Markers -/

/-- Whether the text starts with a marker. -/
def startsComment : List Char → Bool
  | '#' :: _ => true
  | '/' :: '/' :: _ => true
  | _ => false

/-- The part of a line in front of its first marker. -/
def beforeMarker : List Char → List Char
  | [] => []
  | c :: cs => if startsComment (c :: cs) then [] else c :: beforeMarker cs

/-- A `#` of the line that starts a comment, with the first `//` behind it. -/
def ShadowedHash (line : List Char) : Prop :=
  ∃ cs ds, line = cs ++ '#' :: ds ∧ ¬ ['/', '/'] <:+: cs ∧ ['/', '/'] <:+: ds

section
variable {line cs ds : List Char}

theorem startsComment_cases (h : startsComment cs = true) :
    (∃ ds, cs = '#' :: ds) ∨ ∃ ds, cs = '/' :: '/' :: ds := by
  unfold startsComment at h
  split at h
  · exact .inl ⟨_, rfl⟩
  · exact .inr ⟨_, rfl⟩
  · cases h

/-- The line is cut where a marker stands, and no marker starts further left. -/
theorem beforeMarker_spec (line : List Char) :
    ∃ rest, line = beforeMarker line ++ rest ∧ (rest = [] ∨ startsComment rest = true) ∧
      ∀ ds, ds <:+ line → startsComment ds = true → ds <:+ rest := by
  induction line with
  | nil => exact ⟨[], rfl, .inl rfl, fun _ hds _ => hds⟩
  | cons c cs ih =>
    rw [beforeMarker]
    split
    · next hstart => exact ⟨c :: cs, rfl, .inr hstart, fun _ hds _ => hds⟩
    · next hstart =>
      obtain ⟨rest, hcs, hrest, hfirst⟩ := ih
      refine ⟨rest, congrArg (c :: ·) hcs, hrest, fun ds hds hcomment => ?_⟩
      rcases List.suffix_cons_iff.1 hds with rfl | hds
      · exact absurd hcomment hstart
      · exact hfirst ds hds hcomment

theorem isPrefix_beforeMarker (line : List Char) : beforeMarker line <+: line := by
  obtain ⟨rest, hline, -⟩ := beforeMarker_spec line
  exact ⟨rest, hline.symm⟩

/-- No marker stands within what is in front of the first one, or reaches over its end. -/
theorem not_infix_beforeMarker {rest : List Char} (marker start : List Char)
    (hline : line = beforeMarker line ++ rest)
    (hfirst : ∀ ds, ds <:+ line → startsComment ds = true → ds <:+ rest)
    (hmarker : ∀ ds, startsComment (marker ++ ds) = true) (hstart : start <+: rest)
    (hlen : start.length < marker.length) : ¬ marker <:+: beforeMarker line ++ start := by
  rintro ⟨as, bs, hin⟩
  obtain ⟨behind, rfl⟩ := hstart
  have hsuffix : marker ++ (bs ++ behind) <:+ line := by
    refine ⟨as, ?_⟩
    rw [hline, ← List.append_assoc (beforeMarker line), ← hin]
    simp
  have hlength := (hfirst _ hsuffix (hmarker _)).length_le
  simp only [List.length_append] at hlength
  omega

theorem hash_not_mem_beforeMarker (line : List Char) : '#' ∉ beforeMarker line := by
  obtain ⟨rest, hline, -, hfirst⟩ := beforeMarker_spec line
  intro hmem
  obtain ⟨as, bs, heq⟩ := List.append_of_mem hmem
  have hnone := not_infix_beforeMarker ['#'] [] hline hfirst (fun _ => rfl) List.nil_prefix
    Nat.zero_lt_one
  rw [List.append_nil] at hnone
  exact hnone ⟨as, bs, by rw [heq, List.append_assoc]; rfl⟩

theorem no_slashes_beforeMarker (line : List Char) : ¬ ['/', '/'] <:+: beforeMarker line := by
  obtain ⟨rest, hline, -, hfirst⟩ := beforeMarker_spec line
  have hnone := not_infix_beforeMarker ['/', '/'] [] hline hfirst (fun _ => rfl) List.nil_prefix
    Nat.zero_lt_two
  rwa [List.append_nil] at hnone

/-! ### Cutting a line -/

theorem beforeSlashes?_append : ∀ {cs : List Char}, ¬ ['/', '/'] <:+: cs ++ ['/'] →
    ∀ rest done, beforeSlashes? (cs ++ '/' :: '/' :: rest) done = some (done.reverse ++ cs)
  | [], _, rest, done => by rw [List.nil_append, beforeSlashes?, List.append_nil]
  | c :: cs, h, rest, done => by
    have htail : ¬ ['/', '/'] <:+: cs ++ ['/'] := fun hin =>
      h (hin.trans (List.suffix_cons ..).isInfix)
    rw [List.cons_append, beforeSlashes?.eq_2, beforeSlashes?_append htail]
    · simp
    · -- a slash in front of a slash would be the first pair
      rintro ds rfl hds
      cases cs with
      | nil => exact h List.infix_rfl
      | cons d cs =>
        obtain ⟨rfl, -⟩ := List.cons.inj hds
        exact h ⟨[], cs ++ ['/'], rfl⟩

theorem cutComment_append (h : ¬ ['/', '/'] <:+: cs ++ ['/']) (rest : List Char) :
    cutComment (cs ++ '/' :: '/' :: rest) = cs := by
  rw [cutComment, beforeSlashes?_append h]
  rfl

theorem exists_first_slashes : ∀ {line : List Char}, ['/', '/'] <:+: line →
    ∃ cs rest, line = cs ++ '/' :: '/' :: rest ∧ ¬ ['/', '/'] <:+: cs ++ ['/']
  | [], h => by
    have hlen := h.length_le
    contradiction
  | c :: line, h => by
    by_cases hstart : ['/', '/'] <+: c :: line
    · obtain ⟨rest, hrest⟩ := hstart
      refine ⟨[], rest, hrest.symm, fun hin => ?_⟩
      have hlen := hin.length_le
      contradiction
    · obtain ⟨cs, rest, rfl, hfirst⟩ :=
        exists_first_slashes ((List.infix_cons_iff.1 h).resolve_left hstart)
      refine ⟨c :: cs, rest, rfl, fun hin => ?_⟩
      rcases List.infix_cons_iff.1 hin with hstarts | hin
      · refine hstart (hstarts.trans ?_)
        exact ⟨'/' :: rest, by simp⟩
      · exact hfirst hin

theorem no_slashes_append {c : Char} (hc : c ≠ '/') (hcs : ¬ ['/', '/'] <:+: cs)
    (hds : ¬ ['/', '/'] <:+: ds) : ¬ ['/', '/'] <:+: cs ++ c :: ds := by
  induction cs with
  | nil =>
    intro hin
    rcases List.infix_cons_iff.1 hin with hstarts | hin
    · exact hc (List.cons_prefix_cons.1 hstarts).1.symm
    · exact hds hin
  | cons d cs ih =>
    intro hin
    rcases List.infix_cons_iff.1 hin with hstarts | hin
    · obtain ⟨rfl, hnext⟩ := List.cons_prefix_cons.1 hstarts
      cases cs with
      | nil => exact hc (List.cons_prefix_cons.1 hnext).1.symm
      | cons e cs =>
        obtain ⟨rfl, -⟩ := List.cons_prefix_cons.1 hnext
        exact hcs ⟨[], cs, rfl⟩
    · exact ih (fun h => hcs (h.trans (List.suffix_cons ..).isInfix)) hin

/-- Without a shadowed `#` a line is cut at its first marker. -/
theorem cutComment_eq_beforeMarker (h : ¬ ShadowedHash line) :
    cutComment line = beforeMarker line := by
  obtain ⟨rest, hline, hrest, hfirst⟩ := beforeMarker_spec line
  have hhash := hash_not_mem_beforeMarker line
  have hslashes := no_slashes_beforeMarker line
  rcases hrest with rfl | hrest
  · rw [List.append_nil] at hline
    rw [← hline] at hhash hslashes ⊢
    exact cutComment_eq hslashes hhash
  · rcases startsComment_cases hrest with ⟨ds, rfl⟩ | ⟨ds, rfl⟩
    · have hds : ¬ ['/', '/'] <:+: ds := fun hds => h ⟨_, ds, hline, hslashes, hds⟩
      have hnone : ¬ ['/', '/'] <:+: line := hline ▸ no_slashes_append (by decide) hslashes hds
      rw [cutComment, beforeSlashes?_eq_none [] hnone]
      dsimp only
      conv_lhs => rw [hline]
      rw [List.takeWhile_append_of_pos, List.takeWhile_cons_of_neg (by simp), List.append_nil]
      exact fun c hc => bne_iff_ne.2 fun heq => hhash (heq ▸ hc)
    · have hover := not_infix_beforeMarker ['/', '/'] ['/'] hline hfirst (fun _ => rfl)
        ⟨'/' :: ds, rfl⟩ Nat.one_lt_two
      have hcut := cutComment_append hover ds
      rwa [← hline] at hcut

/-- It is a shadowed `#` that a line keeps. -/
theorem hash_mem_cutComment_iff (line : List Char) : '#' ∈ cutComment line ↔ ShadowedHash line := by
  constructor
  · intro hmem
    by_contra h
    rw [cutComment_eq_beforeMarker h] at hmem
    exact hash_not_mem_beforeMarker line hmem
  · rintro ⟨cs, ds, rfl, hcs, hds⟩
    obtain ⟨es, rest, rfl, hes⟩ := exists_first_slashes hds
    have hfirst : ¬ ['/', '/'] <:+: cs ++ '#' :: es ++ ['/'] := by
      rw [List.append_assoc]
      exact no_slashes_append (by decide) hcs hes
    have hcut := cutComment_append hfirst rest
    rw [List.append_assoc, List.cons_append] at hcut
    rw [hcut]
    simp

instance : DecidablePred ShadowedHash := fun line =>
  decidable_of_iff ('#' ∈ cutComment line) (hash_mem_cutComment_iff line)

theorem cutComment_subset (line : List Char) : cutComment line ⊆ line := by
  by_cases h : ['/', '/'] <:+: line
  · obtain ⟨cs, rest, rfl, hfirst⟩ := exists_first_slashes h
    rw [cutComment_append hfirst]
    exact List.subset_append_left ..
  · rw [cutComment, beforeSlashes?_eq_none [] h]
    exact (List.takeWhile_prefix _).subset

end

/-! ### Whole texts -/

theorem mem_trim_iff {x : Char} (hx : isBlank x = false) {cs : List Char} :
    x ∈ Text.trim cs ↔ x ∈ cs :=
  ⟨(Text.thins_trim cs).subset, fun hmem => (Text.thins_trim cs).mem_of_not_blank hmem hx⟩

theorem hash_foreign : '#' ∈ foreignChars := List.mem_cons_self ..

theorem shares_degreeScale {scale : Char} (hscale : '#' ≠ scale) :
    Rewrites (Shares '#') (degreeScale scale) := by
  intro before c cs s h
  obtain ⟨rfl, ⟨blanks, hblanks, htaken⟩, hwritten⟩ := degreeScale_spec h
  have hnone : '#' ∉ blanks := fun hmem => absurd (hblanks _ hmem) (by decide)
  rw [Shares, htaken, hwritten]
  simp [hnone, hscale, degreeSign]

theorem shares_degreeAlone : Rewrites (Shares '#') degreeAlone := by
  intro before c cs s h
  unfold degreeAlone at h
  split at h
  · next hc =>
    cases h
    rw [Shares, hc, List.take_zero]
    decide
  · cases h

theorem hash_not_mem_code {symbol : Char} {code : String}
    (h : Currency.ofSymbol? symbol = some code) : '#' ≠ symbol ∧ '#' ∉ ' ' :: code.toList := by
  have hcodes : ∀ e ∈ Currency.symbols, '#' ≠ e.1 ∧ '#' ∉ ' ' :: e.2.toList :=
    List.all_iff_forall_prop.1 (by decide)
  obtain ⟨e, he, rfl, rfl⟩ := exists_of_ofSymbol? h
  exact hcodes e he

theorem shares_symbolBefore : Rewrites (Shares '#') symbolBefore := by
  intro before c cs s h
  obtain ⟨code, blanks, scaled, hcode, hblanks, htaken, hwritten⟩ := symbolBefore_spec h
  obtain ⟨hsymbol, hnone⟩ := hash_not_mem_code hcode
  have hblank : '#' ∉ blanks := fun hmem => absurd (hblanks _ hmem) (by decide)
  rw [Shares, htaken, hwritten, List.mem_append, List.mem_cons, List.mem_append]
  simp only [hsymbol, hblank, hnone, false_or, or_false]

theorem shares_symbolAfter : Rewrites (Shares '#') symbolAfter := by
  intro before c cs s h
  rcases symbolAfter_spec h with
    hsame | ⟨amount, blanks, symbol, code, hcode, hblanks, htaken, hwritten⟩
  · rw [Shares, hsame]
  · obtain ⟨hsymbol, hnone⟩ := hash_not_mem_code hcode
    have hblank : '#' ∉ blanks := fun hmem => absurd (hblanks _ hmem) (by decide)
    rw [Shares, htaken, hwritten, List.mem_append, List.mem_append, List.mem_append,
      List.mem_singleton]
    simp only [hsymbol, hblank, hnone, or_false]

theorem shares_symbolAlone : Rewrites (Shares '#') symbolAlone := by
  intro before c cs s h
  obtain ⟨code, hcode, rfl⟩ := Option.map_eq_some_iff.1 h
  obtain ⟨hsymbol, hnone⟩ := hash_not_mem_code hcode
  have hwritten : '#' ∉ ' ' :: (code.toList ++ [' ']) := by
    simpa using hnone
  rw [Shares, List.take_zero, List.mem_singleton]
  exact iff_of_false hsymbol hwritten

/-- No rule but that for comments takes a `#`, and none writes one. -/
theorem hash_mem_normalize_iff (l : Locale) (cs : List Char) :
    '#' ∈ normalize l cs ↔ '#' ∈ removeComments cs := by
  have hblank : isBlank '#' = false := rfl
  have hshares := piecewise_shares '#'
  have hsweep : ∀ {rule : Rule}, Rewrites (Shares '#') rule → ∀ ds, '#' ∈ sweep rule ds ↔ '#' ∈ ds :=
    fun h ds => (h.sweep hshares ds).symm
  have hsign : ∀ ds : List Char, '#' ∈ ds.map plainSign ↔ '#' ∈ ds := fun ds => by
    have hplain : ∀ c : Char, plainSign c = '#' ↔ c = '#' := by
      intro c
      unfold plainSign
      split_ifs <;> simp_all
    simp [List.mem_map, hplain]
  have hnumbers := fun ds => (hshares.normalizeNumbers (l := l) (shares_spaced hash_foreign)
    (shares_punctuated l hash_foreign) ds).symm
  have hwords := fun ds => (hshares.replaceOperatorWords
    (fun he => shares_operatorWord he hash_foreign) ds).symm
  unfold normalize
  dsimp only
  rw [mem_trim_iff hblank, replaceSymbols, hsweep shares_symbolAlone, hsweep shares_symbolAfter,
    hsweep shares_symbolBefore, hnumbers, removeUnderscores, hsweep (shares_underscored hash_foreign),
    replaceDegrees, hsweep shares_degreeAlone, hsweep (shares_degreeScale (by decide)),
    hsweep (shares_degreeScale (by decide)), hwords, replaceNumberWords,
    hsweep (shares_numberWord hash_foreign), hsign, mem_trim_iff hblank]

theorem hash_mem_removeComments_iff (cs : List Char) :
    '#' ∈ removeComments cs ↔ ∃ line ∈ Text.lines cs, '#' ∈ cutComment line := by
  rw [removeComments, Text.mem_intercalate_iff (by decide)]
  simp

/-- A text with its lines cut at their first markers has the same normal form if, and only if, no line
has a `#` in front of its first `//`. -/
theorem normalize_cut_iff (l : Locale) (cs : List Char) :
    (∃ ds, Text.lines ds = (Text.lines cs).map beforeMarker) ∧
      ∀ ds, Text.lines ds = (Text.lines cs).map beforeMarker →
        (normalize l ds = normalize l cs ↔ ∀ line ∈ Text.lines cs, ¬ ShadowedHash line) := by
  constructor
  · refine Text.exists_lines_eq fun line hline => ?_
    obtain ⟨whole, hwhole, rfl⟩ := List.mem_map.1 hline
    exact fun hmem => Text.not_mem_of_mem_lines hwhole ((isPrefix_beforeMarker whole).subset hmem)
  intro ds hds
  constructor
  · intro heq line hline hshadowed
    have hkept := (hash_mem_cutComment_iff line).2 hshadowed
    have hcs : '#' ∈ normalize l cs := (hash_mem_normalize_iff l cs).2
      ((hash_mem_removeComments_iff cs).2 ⟨line, hline, hkept⟩)
    rw [← heq, hash_mem_normalize_iff, hash_mem_removeComments_iff, hds] at hcs
    obtain ⟨cut, hcut, hmem⟩ := hcs
    obtain ⟨whole, -, rfl⟩ := List.mem_map.1 hcut
    exact hash_not_mem_beforeMarker whole (cutComment_subset _ hmem)
  · intro hnone
    have hlines : (Text.lines ds).map cutComment = (Text.lines cs).map cutComment := by
      rw [hds, List.map_map]
      refine List.map_congr_left fun line hline => ?_
      rw [cutComment_eq_beforeMarker (hnone line hline)]
      exact cutComment_eq (no_slashes_beforeMarker line) (hash_not_mem_beforeMarker line)
    have hcomments : removeComments ds = removeComments cs := by
      rw [removeComments, removeComments, hlines]
    unfold normalize
    rw [hcomments]

/-- Comments of both kinds, one of them with the other marker in it. -/
theorem normalize_cut_iff_lines :
    normalize .german "1,5 \r\n2 ".toList = normalize .german "1,5 // one # half\r\n2 # two".toList :=
  ((normalize_cut_iff .german "1,5 // one # half\r\n2 # two".toList).2 "1,5 \r\n2 ".toList
    (by decide)).2 (by decide)

/-- A `#` in front of a `//` is kept with what stands between the two. -/
theorem normalize_cut_shadowed :
    Text.lines "1 ".toList = (Text.lines "1 # a // b".toList).map beforeMarker ∧
      normalize .english "1 ".toList = "1".toList ∧
        normalize .english "1 # a // b".toList = "1 # a".toList := by
  decide +kernel

end Reckoner.Spelling

import Reckoner.Proofs.Spelling.Literals

/-!
# The tokens tile the text

Cutting a text ends in one of two ways (`tokens_tile`). Either the tokens lie side by side from the
first byte to the last, or they do so up to a character that no token starts with. A scanner looks
ahead, but never past such a character: in front of it the text can be cut off without any effect on
the tokens (`scan?_cut`).
-/

namespace Reckoner

namespace Token

open String (utf8Len)

/-! ### Where a token starts -/

/-- A token starts with `c`. Only for a point does it matter what is behind. -/
def Starts (c : Char) (behind : List Char) : Prop :=
  Text.isBlank c = true ∨ c.isDigit = true ∨ c ∈ signs ∨ Text.isNameStart c = true ∨
    c = '.' ∧ ∃ d rest, behind = d :: rest ∧ d.isDigit = true

/-- A token that is no blank starts with `c`. -/
def StartsSolid (c : Char) (behind : List Char) : Prop :=
  c.isDigit = true ∨ c ∈ signs ∨ Text.isNameStart c = true ∨
    c = '.' ∧ ∃ d rest, behind = d :: rest ∧ d.isDigit = true

theorem scanOperator_or_scanParen {c : Char} (hc : c ∈ signs) (cs : List Char) :
    scanOperator (c :: cs) ≠ none ∨ scanParen (c :: cs) ≠ none := by
  simp only [signs, List.mem_cons, List.not_mem_nil, or_false] at hc
  rcases hc with rfl | rfl | rfl | rfl | rfl | rfl | rfl | rfl | rfl
  case inr.inr.inl =>
    by_cases hstar : ∃ rest, cs = '*' :: rest
    · obtain ⟨rest, rfl⟩ := hstar
      exact .inl (Option.some_ne_none _)
    · rw [scanOperator_times fun rest heq => hstar ⟨rest, heq⟩]
      exact .inl (Option.some_ne_none _)
  case inr.inr.inr.inr.inr.inr.inr.inl | inr.inr.inr.inr.inr.inr.inr.inr =>
    exact .inr (Option.some_ne_none _)
  all_goals exact .inl (Option.some_ne_none _)

theorem Starts.scan?_ne_none {c : Char} {behind : List Char} (hstarts : Starts c behind) :
    scan? (c :: behind) ≠ none := by
  intro h
  simp only [scan?, Option.orElse_eq_orElse, Option.orElse_eq_or, Option.or_eq_none_iff] at h
  obtain ⟨hblank, -, -, -, hdecimal, hoperator, hparen, hword⟩ := h
  rcases hstarts with hc | hc | hc | hc | ⟨rfl, d, rest, rfl, hd⟩
  · rw [scanBlank, List.takeWhile_cons, hc] at hblank
    cases hblank
  · rw [scanDecimal, List.takeWhile_cons, hc] at hdecimal
    cases hdecimal
  · exact (scanOperator_or_scanParen hc behind).elim (· hoperator) (· hparen)
  · rw [scanWord, if_pos hc] at hword
    cases hword
  · have hfraction : scanFraction ('.' :: d :: rest) =
        ('.' :: d :: rest.takeWhile Char.isDigit, rest.dropWhile Char.isDigit) := by
      rw [scanFraction, List.takeWhile_cons_of_pos hd, List.dropWhile_cons_of_pos hd]
      rfl
    rw [scanDecimal, List.takeWhile_cons_of_neg (by decide), List.dropWhile_cons_of_neg (by decide),
      hfraction] at hdecimal
    cases hdecimal

theorem scan?_eq_none {c : Char} {behind : List Char} (h : ¬ Starts c behind) :
    scan? (c :: behind) = none := by
  simp only [Starts, not_or, Bool.not_eq_true] at h
  obtain ⟨hblank, hdigit, hsign, hword, hpoint⟩ := h
  rw [scan?_eq_scanWord hblank hdigit hsign hpoint]
  exact if_neg (by rw [hword]; exact Bool.false_ne_true)

/-- Nothing is scanned exactly where no token starts. -/
theorem scan?_eq_none_iff {c : Char} {behind : List Char} :
    scan? (c :: behind) = none ↔ ¬ Starts c behind :=
  ⟨fun h hstarts => hstarts.scan?_ne_none h, scan?_eq_none⟩

/-! ### Cutting a text off where no token starts -/

/-- What is scanned in front of `d`, but not further than to `d`, is scanned without `d` too. -/
structure CutsOff (d : List Char) (scan : List Char → Option Scanned) : Prop where
  none : ∀ cs, scan (cs ++ d) = none → scan cs = none
  some : ∀ cs s rest, scan (cs ++ d) = some s → s.rest = rest ++ d →
    scan cs = some { s with rest := rest }

namespace CutsOff
variable {d : List Char} {f g : List Char → Option Scanned}

theorem orElse (hf : CutsOff d f) (hg : CutsOff d g) : CutsOff d fun cs => f cs <|> g cs := by
  constructor
  · intro cs h
    simp only [Option.orElse_eq_orElse, Option.orElse_eq_or, Option.or_eq_none_iff] at h ⊢
    exact ⟨hf.none cs h.1, hg.none cs h.2⟩
  · intro cs s rest h hrest
    simp only [Option.orElse_eq_orElse, Option.orElse_eq_or, Option.or_eq_some_iff] at h ⊢
    rcases h with h | ⟨hnone, h⟩
    · exact .inl (hf.some cs s rest h hrest)
    · exact .inr ⟨hf.none cs hnone, hg.some cs s rest h hrest⟩

end CutsOff

/-- The scanner does not look at `d` at all. -/
def StopsAt (d : List Char) (scan : List Char → Option Scanned) : Prop :=
  ∀ cs, scan (cs ++ d) = (scan cs).map fun s => { s with rest := s.rest ++ d }

namespace StopsAt
variable {d : List Char} {f g : List Char → Option Scanned}

theorem orElse (hf : StopsAt d f) (hg : StopsAt d g) : StopsAt d fun cs => f cs <|> g cs := by
  intro cs
  dsimp only
  rw [hf cs, hg cs]
  cases f cs <;> rfl

theorem cutsOff (h : StopsAt d f) : CutsOff d f := by
  constructor
  · intro cs hnone
    rw [h] at hnone
    exact Option.map_eq_none_iff.1 hnone
  · intro cs s rest hs hrest
    rw [h] at hs
    obtain ⟨t, ht, rfl⟩ := Option.map_eq_some_iff.1 hs
    cases List.append_cancel_right hrest
    exact ht

end StopsAt

/-- A run of characters does not reach past a character of another kind. -/
theorem takeWhile_dropWhile_before {p : Char → Bool} {c : Char} (hc : p c = false)
    (behind : List Char) : ∀ cs : List Char, (cs ++ c :: behind).takeWhile p = cs.takeWhile p ∧
      (cs ++ c :: behind).dropWhile p = cs.dropWhile p ++ c :: behind
  | [] => by
    rw [List.nil_append, List.takeWhile_cons_of_neg (by simp [hc]),
      List.dropWhile_cons_of_neg (by simp [hc])]
    exact ⟨rfl, rfl⟩
  | x :: cs => by
    obtain ⟨htake, hdrop⟩ := takeWhile_dropWhile_before hc behind cs
    rw [List.cons_append, List.takeWhile_cons, List.takeWhile_cons, List.dropWhile_cons,
      List.dropWhile_cons]
    cases p x with
    | true => exact ⟨congrArg (x :: ·) htake, hdrop⟩
    | false => exact ⟨rfl, rfl⟩

/-- A run that ends before `d` ends there without `d` too. -/
theorem takeWhile_dropWhile_cut {p : Char → Bool} {cs d rest : List Char}
    (h : (cs ++ d).dropWhile p = rest ++ d) :
    cs.takeWhile p = (cs ++ d).takeWhile p ∧ cs.dropWhile p = rest := by
  have hcs : (cs ++ d).takeWhile p ++ rest = cs := by
    have hwhole := List.takeWhile_append_dropWhile (p := p) (l := cs ++ d)
    rw [h, ← List.append_assoc] at hwhole
    exact List.append_cancel_right hwhole
  have hend : ∀ x behind, rest = x :: behind → p x = false := by
    rintro x behind rfl
    have hhead := List.head?_dropWhile_not p (cs ++ d)
    rw [h] at hhead
    simpa using hhead
  have hrun : ∀ x ∈ (cs ++ d).takeWhile p, p x = true := fun x hx => Spelling.mem_takeWhile hx
  have hcut := Spelling.takeWhile_dropWhile_append hrun hend
  rwa [hcs] at hcut

/-- Tokens start with all that numbers are made of, except for the point. -/
theorem StartsSolid.of_literalChar {c : Char} (hc : c ∈ Spelling.figureChars ++ Spelling.markLetters)
    (hpoint : c ≠ '.') (behind : List Char) : StartsSolid c behind := by
  have hfacts : ∀ c ∈ Spelling.figureChars ++ Spelling.markLetters,
      c = '.' ∨ c.isDigit = true ∨ c ∈ signs ∨ Text.isNameStart c = true :=
    List.all_iff_forall_prop.1 (by decide +kernel)
  rcases hfacts c hc with hc | hc | hc | hc
  · exact absurd hc hpoint
  · exact .inl hc
  · exact .inr (.inl hc)
  · exact .inr (.inr (.inl hc))

section
variable {c : Char} {behind : List Char} (hstop : ¬ StartsSolid c behind)
include hstop

theorem isHexDigit_eq_false : isHexDigit c = false := by
  refine Bool.eq_false_iff.2 fun hc => hstop (.of_literalChar ?_ ?_ behind)
  · exact List.mem_append_left _ (Spelling.mem_figureChars_of_isHexDigit hc)
  · rintro rfl
    exact absurd hc (by decide)

theorem isDigit_eq_false : c.isDigit = false := Bool.eq_false_iff.2 fun hc => hstop (.inl hc)

theorem ne_of_mem_signs {sign : Char} (hsign : sign ∈ signs) : c ≠ sign := fun heq =>
  hstop (.inr (.inl (heq ▸ hsign)))

theorem ne_of_mem_markLetters {m : Char} (hm : m ∈ Spelling.markLetters) : c ≠ m := by
  rintro rfl
  refine hstop (.of_literalChar (List.mem_append_right _ hm) ?_ behind)
  rintro rfl
  exact absurd hm (by decide)

theorem stopsAt_scanRadix {marker : Char} {base : Nat} {isDigit : Char → Bool}
    (hradix : (marker, base, isDigit) ∈ radixes) :
    StopsAt (c :: behind) (scanRadix marker base isDigit) := by
  have hdigit : isDigit c = false := Bool.eq_false_iff.2 fun hc => by
    cases (isHexDigit_eq_false hstop).symm.trans (Spelling.isHexDigit_of_radix hradix hc)
  have hmarker : c.toLower ≠ marker := fun hc =>
    ne_of_mem_markLetters hstop (Spelling.mem_markLetters hradix hc) rfl
  intro cs
  cases cs with
  | nil =>
    refine scanRadix_eq_none ?_ ..
    rintro rfl
    cases isDigit_eq_false hstop
  | cons x cs =>
    by_cases hx : x = '0'
    · rw [hx]
      cases cs with
      | nil => exact scanRadix_of_ne hmarker ..
      | cons m cs =>
        obtain ⟨htake, hdrop⟩ := takeWhile_dropWhile_before hdigit behind cs
        rw [List.cons_append, List.cons_append, scanRadix, scanRadix, htake, hdrop]
        split <;> rfl
    · rw [List.cons_append, scanRadix_eq_none hx, scanRadix_eq_none hx]
      rfl

theorem scanFraction_append_stop (cs : List Char) : scanFraction (cs ++ c :: behind) =
    ((scanFraction cs).1, (scanFraction cs).2 ++ c :: behind) := by
  have hpoint := fun h => hstop (.inr (.inr (.inr h)))
  cases cs with
  | nil => exact scanFraction_eq_nil hpoint
  | cons x cs =>
    by_cases hx : x = '.'
    · obtain ⟨htake, hdrop⟩ := takeWhile_dropWhile_before (isDigit_eq_false hstop) behind cs
      rw [hx, List.cons_append, scanFraction, scanFraction, htake, hdrop]
      split <;> rfl
    · rw [List.cons_append, scanFraction_eq_nil fun h => hx h.1, scanFraction_eq_nil fun h => hx h.1]
      rfl

theorem scanSign_append_stop (cs : List Char) : scanSign (cs ++ c :: behind) =
    ((scanSign cs).1, (scanSign cs).2 ++ c :: behind) := by
  cases cs with
  | nil =>
    exact scanSign_eq_nil (ne_of_mem_signs hstop (by decide)) (ne_of_mem_signs hstop (by decide)) behind
  | cons x cs =>
    by_cases hplus : x = '+'
    · rw [hplus]
      rfl
    · by_cases hminus : x = '-'
      · rw [hminus]
        rfl
      · rw [List.cons_append, scanSign_eq_nil hplus hminus, scanSign_eq_nil hplus hminus]
        rfl

theorem scanExponent_append_stop (cs : List Char) : scanExponent (cs ++ c :: behind) =
    ((scanExponent cs).1, (scanExponent cs).2.1, (scanExponent cs).2.2 ++ c :: behind) := by
  cases cs with
  | nil =>
    have hmark : ¬ (c = 'e' ∨ c = 'E') := by
      rintro (h | h)
      · exact ne_of_mem_markLetters hstop (by decide) h
      · exact ne_of_mem_markLetters hstop (by decide) h
    exact if_neg fun hif => hmark hif.1
  | cons x cs =>
    obtain ⟨htake, hdrop⟩ :=
      takeWhile_dropWhile_before (isDigit_eq_false hstop) behind (scanSign cs).2
    rw [List.cons_append, scanExponent, scanExponent, scanSign_append_stop hstop]
    dsimp only
    rw [htake, hdrop]
    split <;> rfl

theorem stopsAt_scanDecimal : StopsAt (c :: behind) scanDecimal := by
  intro cs
  obtain ⟨htake, hdrop⟩ := takeWhile_dropWhile_before (isDigit_eq_false hstop) behind cs
  rw [scanDecimal, scanDecimal, htake, hdrop, scanFraction_append_stop hstop]
  dsimp only
  rw [scanExponent_append_stop hstop]
  split <;> rfl

theorem stopsAt_scanOperator : StopsAt (c :: behind) scanOperator := by
  intro cs
  have hstar : c ≠ '*' := ne_of_mem_signs hstop (by decide)
  cases cs with
  | nil => exact scanOperator_eq_none (fun hc => ne_of_mem_signs hstop hc rfl) behind
  | cons x cs =>
    by_cases hx : x ∈ signs
    · simp only [signs, List.mem_cons, List.not_mem_nil, or_false] at hx
      rcases hx with rfl | rfl | rfl | rfl | rfl | rfl | rfl | rfl | rfl
      case inr.inr.inl =>
        by_cases hcs : ∃ rest, cs = '*' :: rest
        · obtain ⟨rest, rfl⟩ := hcs
          rfl
        · rw [List.cons_append, scanOperator_times fun rest heq => hcs ⟨rest, heq⟩, scanOperator_times]
          · rfl
          · intro rest heq
            cases cs with
            | nil => exact hstar (List.cons.inj heq).1
            | cons y cs => exact hcs ⟨cs, by rw [(List.cons.inj heq).1]⟩
      all_goals rfl
    · rw [List.cons_append, scanOperator_eq_none hx, scanOperator_eq_none hx]
      rfl

theorem stopsAt_scanParen : StopsAt (c :: behind) scanParen := by
  intro cs
  cases cs with
  | nil =>
    exact scanParen_eq_none (ne_of_mem_signs hstop (by decide)) (ne_of_mem_signs hstop (by decide)) behind
  | cons x cs =>
    by_cases hopen : x = '('
    · rw [hopen]
      rfl
    · by_cases hclose : x = ')'
      · rw [hclose]
        rfl
      · rw [List.cons_append, scanParen_eq_none hopen hclose, scanParen_eq_none hopen hclose]
        rfl

/-- A word may well run on into `c`, but then it goes further than to `c`. -/
theorem cutsOff_scanWord : CutsOff (c :: behind) scanWord := by
  constructor
  · intro cs h
    cases cs with
    | nil => rfl
    | cons x cs =>
      by_cases hx : Text.isNameStart x = true
      · rw [List.cons_append, scanWord, if_pos hx] at h
        cases h
      · exact if_neg hx
  · intro cs s rest h hrest
    cases cs with
    | nil =>
      have hword : scanWord (c :: behind) = none := if_neg fun hc =>
        hstop (.inr (.inr (.inl hc)))
      cases hword.symm.trans h
    | cons x cs =>
      by_cases hx : Text.isNameStart x = true
      · rw [List.cons_append, scanWord, if_pos hx] at h
        cases h
        obtain ⟨htake, hdrop⟩ := takeWhile_dropWhile_cut hrest
        rw [scanWord, if_pos hx, htake, hdrop]
      · rw [List.cons_append, scanWord, if_neg hx] at h
        cases h

end

theorem stopsAt_scanBlank {c : Char} (hblank : Text.isBlank c = false) (behind : List Char) :
    StopsAt (c :: behind) scanBlank := by
  intro cs
  obtain ⟨htake, hdrop⟩ := takeWhile_dropWhile_before hblank behind cs
  rw [scanBlank, scanBlank, htake, hdrop]
  split <;> rfl

/-- The text can be cut off where nothing is scanned. -/
theorem scan?_cut {d : List Char} (hd : scan? d = none) : CutsOff d scan? := by
  cases d with
  | nil =>
    refine StopsAt.cutsOff fun cs => ?_
    rw [List.append_nil]
    cases scan? cs with
    | none => rfl
    | some s => simp only [Option.map_some, List.append_nil]
  | cons c behind =>
    have hnone := scan?_eq_none_iff.1 hd
    have hblank : Text.isBlank c = false := Bool.eq_false_iff.2 fun h => hnone (.inl h)
    have hstop : ¬ StartsSolid c behind := fun h => hnone (.inr h)
    exact (stopsAt_scanBlank hblank behind).cutsOff.orElse <|
      (stopsAt_scanRadix hstop (by simp [radixes])).cutsOff.orElse <|
      (stopsAt_scanRadix hstop (by simp [radixes])).cutsOff.orElse <|
      (stopsAt_scanRadix hstop (by simp [radixes])).cutsOff.orElse <|
      (stopsAt_scanDecimal hstop).cutsOff.orElse <| (stopsAt_scanOperator hstop).cutsOff.orElse <|
      (stopsAt_scanParen hstop).cutsOff.orElse (cutsOff_scanWord hstop)

/-! ### Cutting from the left to the right -/

/-- The token at the start of a text, with its place behind what is `before` the text. -/
def Scanned.lexeme (s : Scanned) (before : List Char) : Lexeme :=
  ⟨s.token, utf8Len before, utf8Len (before ++ s.text), before.length + 1⟩

/-- The text behind `before` is cut into tokens until `stop` is left. -/
inductive CutUpTo (stop : List Char) : (before cs : List Char) → List Lexeme → Prop where
  | nil {before} : CutUpTo stop before stop []
  | cons {before cs s ls} : scan? cs = some s → CutUpTo stop (before ++ s.text) s.rest ls →
      CutUpTo stop before cs (s.lexeme before :: ls)

theorem byteLength_eq_utf8Len (cs : List Char) : byteLength cs = utf8Len cs := by
  have hfold : ∀ (cs : List Char) (n : Nat),
      cs.foldl (fun n c => n + c.utf8Size) n = utf8Len cs + n := by
    intro cs
    induction cs with
    | nil => exact fun n => (Nat.zero_add n).symm
    | cons c cs ih =>
      intro n
      rw [List.foldl_cons, ih, String.utf8Len_cons, Nat.add_assoc, Nat.add_comm n]
  exact hfold cs 0

theorem tokensFrom_of_scan? {cs : List Char} {s : Scanned} (hs : scan? cs = some s)
    (start column : Nat) (done : List Lexeme) : tokensFrom cs start column done =
      tokensFrom s.rest (start + utf8Len s.text) (column + s.text.length)
        (⟨s.token, start, start + utf8Len s.text, column⟩ :: done) := by
  rw [← byteLength_eq_utf8Len]
  generalize hbehind : tokensFrom s.rest _ _ _ = outcome
  cases cs with
  | nil => cases hs
  | cons c cs =>
    unfold tokensFrom
    split
    · next hs' =>
      cases hs.symm.trans hs'
      exact hbehind
    · next hs' => cases hs.symm.trans hs'

theorem tokensFrom_of_none {c : Char} {behind : List Char} (h : scan? (c :: behind) = none)
    (start column : Nat) (done : List Lexeme) : tokensFrom (c :: behind) start column done =
      .error ⟨String.ofList ((c :: behind).take 20), start, start + c.utf8Size, column⟩ := by
  unfold tokensFrom
  split
  · next hs => cases h.symm.trans hs
  · rfl

theorem tokensFrom_nil (start column : Nat) (done : List Lexeme) :
    tokensFrom [] start column done = .ok done.reverse := by
  unfold tokensFrom
  rfl

/-- Every text is cut until nothing is scanned any more. -/
theorem exists_cutUpTo (cs before : List Char) :
    ∃ stop ls, CutUpTo stop before cs ls ∧ scan? stop = none := by
  induction hn : cs.length using Nat.strongRecOn generalizing cs before with
  | ind n ih =>
    cases hs : scan? cs with
    | none => exact ⟨cs, [], .nil, hs⟩
    | some s =>
      obtain ⟨stop, ls, hcut, hstop⟩ := ih _ (hn ▸ length_rest_lt hs) s.rest (before ++ s.text) rfl
      exact ⟨stop, s.lexeme before :: ls, .cons hs hcut, hstop⟩

namespace CutUpTo
variable {stop before cs : List Char} {ls : List Lexeme}

/-- The tokens of the text are those of the cut, and then those of the part that is left. -/
theorem tokensFrom_eq (h : CutUpTo stop before cs ls) (done : List Lexeme) :
    ∃ front, before ++ cs = front ++ stop ∧
      tokensFrom cs (utf8Len before) (before.length + 1) done =
        tokensFrom stop (utf8Len front) (front.length + 1) (ls.reverse ++ done) := by
  induction h generalizing done with
  | nil => exact ⟨_, rfl, rfl⟩
  | @cons before cs s ls hs _ ih =>
    obtain ⟨front, hfront, htokens⟩ := ih (s.lexeme before :: done)
    refine ⟨front, by rw [← hfront, List.append_assoc, scan?_append hs], ?_⟩
    rw [List.reverse_cons, List.append_assoc, List.singleton_append, ← htokens,
      tokensFrom_of_scan? hs, Scanned.lexeme, String.utf8Len_append, List.length_append,
      Nat.add_right_comm]

/-- What is in front of the part that is left is cut in the same way without it. -/
theorem alone (h : CutUpTo stop before cs ls) (hstop : scan? stop = none) :
    ∃ front, cs = front ++ stop ∧ CutUpTo [] before front ls := by
  induction h with
  | nil => exact ⟨[], rfl, .nil⟩
  | @cons before cs s ls hs _ ih =>
    obtain ⟨front, hfront, hcut⟩ := ih
    have hcs : cs = s.text ++ front ++ stop := by
      rw [List.append_assoc, ← hfront, scan?_append hs]
    refine ⟨s.text ++ front, hcs, ?_⟩
    -- The token stops no later than where `stop` starts, so it is found without `stop` too.
    have halone := (scan?_cut hstop).some (s.text ++ front) s front (by rw [← hcs, hs]) hfront
    exact .cons (s := { s with rest := front }) halone hcut

end CutUpTo

/-! ### Tokens side by side -/

/-- Spans that are not empty lie side by side between two bytes. -/
inductive Adjoin : (start stop : Nat) → List Lexeme → Prop where
  | nil {start} : Adjoin start start []
  | cons {stop x ls} : x.start < x.stop → Adjoin x.stop stop ls → Adjoin x.start stop (x :: ls)

/-- The token is what is scanned behind `before`, and its span covers the characters `text`. -/
structure Covers (x : Lexeme) (before text behind : List Char) : Prop where
  scanned : scan? (text ++ behind) = some ⟨x.token, text, behind⟩
  start : x.start = utf8Len before
  stop : x.stop = utf8Len (before ++ text)
  column : x.column = before.length + 1
  word : ∀ w, x.token.word? = some w → w.toList = text
  blank : ∀ bs, x.token = .blank bs → bs.toList = text

/-- The tokens lie side by side from the first byte of the text to the last. -/
structure Tile (cs : List Char) (ls : List Lexeme) : Prop where
  adjoin : Adjoin 0 (utf8Len cs) ls
  covers : ∀ x ∈ ls, ∃ before text behind, cs = before ++ text ++ behind ∧
    Covers x before text behind

/-- No token starts at the place of the fault, and the tokens tile what is in front of it. -/
structure FailsAt (f : TokenFault) (before : List Char) (c : Char) (behind : List Char) : Prop where
  front : ∃ ls, tokens before = .ok ls ∧ Tile before ls
  start : f.start = utf8Len before
  stop : f.stop = utf8Len (before ++ [c])
  column : f.column = before.length + 1
  found : f.found.toList = (c :: behind).take 20
  starts : ¬ Starts c behind

namespace CutUpTo
variable {stop before cs : List Char} {ls : List Lexeme}

theorem adjoin (h : CutUpTo [] before cs ls) :
    Adjoin (utf8Len before) (utf8Len (before ++ cs)) ls := by
  induction h with
  | nil =>
    rw [List.append_nil]
    exact .nil
  | @cons before cs s ls hs _ ih =>
    rw [List.append_assoc, scan?_append hs] at ih
    refine .cons (x := s.lexeme before) ?_ ih
    show utf8Len before < utf8Len (before ++ s.text)
    rw [String.utf8Len_append]
    exact Nat.lt_add_of_pos_right (Nat.pos_of_ne_zero fun h =>
      scan?_text_ne_nil hs (String.utf8Len_eq_zero.1 h))

theorem covers (h : CutUpTo [] before cs ls) : ∀ x ∈ ls, ∃ front text behind,
    before ++ cs = front ++ text ++ behind ∧ Covers x front text behind := by
  induction h with
  | nil => exact fun x hx => absurd hx List.not_mem_nil
  | @cons before cs s ls hs _ ih =>
    intro x hx
    have hcs := scan?_append hs
    rcases List.mem_cons.1 hx with rfl | hx
    · refine ⟨before, s.text, s.rest, by rw [List.append_assoc, hcs], ?_⟩
      exact ⟨by rw [hcs, hs]; rfl, rfl, rfl, rfl, fun w => (taken_scan? hs).spelled,
        fun bs => (taken_scan? hs).toList_blank⟩
    · rw [List.append_assoc, hcs] at ih
      exact ih x hx

theorem tokens_eq (h : CutUpTo [] [] cs ls) : tokens cs = .ok ls := by
  obtain ⟨front, -, htokens⟩ := h.tokensFrom_eq []
  rw [tokens, show 1 = ([] : List Char).length + 1 from rfl, show 0 = utf8Len [] from rfl, htokens,
    tokensFrom_nil, List.append_nil, List.reverse_reverse]

theorem tile (h : CutUpTo [] [] cs ls) : Tile cs ls := ⟨h.adjoin, h.covers⟩

end CutUpTo

/-- Every text is cut: either its tokens tile it, or they do so up to a character that no token
starts with, where the fault is. -/
theorem tokens_tile (cs : List Char) : (∃ ls, tokens cs = .ok ls ∧ Tile cs ls) ∨
    ∃ f before c behind, tokens cs = .error f ∧ cs = before ++ c :: behind ∧
      FailsAt f before c behind := by
  obtain ⟨stop, ls, hcut, hstop⟩ := exists_cutUpTo cs []
  cases stop with
  | nil => exact .inl ⟨ls, hcut.tokens_eq, hcut.tile⟩
  | cons c behind =>
    obtain ⟨before, hbefore, hfront⟩ := hcut.alone hstop
    obtain ⟨front, hcs, htokens⟩ := hcut.tokensFrom_eq []
    rw [List.nil_append, hbefore] at hcs
    cases List.append_cancel_right hcs
    rw [tokensFrom_of_none hstop] at htokens
    have hstopByte : utf8Len (before ++ [c]) = utf8Len before + c.utf8Size := by
      rw [String.utf8Len_append, String.utf8Len_cons, String.utf8Len_nil, Nat.zero_add]
    refine .inr ⟨_, before, c, behind, htokens, hbefore, ?_⟩
    exact ⟨⟨ls, hfront.tokens_eq, hfront.tile⟩, rfl, hstopByte.symm, rfl, String.toList_ofList,
      scan?_eq_none_iff.1 hstop⟩

end Token

end Reckoner

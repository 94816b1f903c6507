import Mathlib.Data.List.TakeWhile
import Reckoner.Spelling.Normal

/-!
# Leaving out blanks

`Thins cs ds`: the text `ds` is `cs` without some of its blanks. Trimming thins a text out, and so
does breaking it into lines and joining them again, which leaves out carriage returns and a last line
feed (`thins_joinLines`). Where nothing starts a comment, removing the comments does no more than that
(`removeComments_eq`).
-/

namespace Reckoner.Text

/-- The second text is the first one without some of its blanks. -/
inductive Thins : List Char → List Char → Prop where
  | nil : Thins [] []
  | keep {c cs ds} : Thins cs ds → Thins (c :: cs) (c :: ds)
  | drop {c cs ds} : isBlank c = true → Thins cs ds → Thins (c :: cs) ds

namespace Thins
variable {cs ds es fs : List Char}

theorem refl : ∀ cs : List Char, Thins cs cs
  | [] => .nil
  | _ :: cs => .keep (refl cs)

theorem append (h : Thins cs ds) (h' : Thins es fs) : Thins (cs ++ es) (ds ++ fs) := by
  induction h with
  | nil => exact h'
  | keep _ ih => exact .keep ih
  | drop hc _ ih => exact .drop hc ih

theorem blanks : ∀ {cs : List Char}, (∀ c ∈ cs, isBlank c = true) → Thins cs []
  | [], _ => .nil
  | c :: _, h => .drop (h c (List.mem_cons_self ..)) (blanks fun x hx => h x (List.mem_cons_of_mem _ hx))

theorem trans (h : Thins cs ds) : ∀ {es : List Char}, Thins ds es → Thins cs es := by
  induction h with
  | nil => exact id
  | drop hc _ ih => exact fun h' => .drop hc (ih h')
  | keep _ ih =>
    intro es h'
    cases h' with
    | keep h' => exact .keep (ih h')
    | drop hc h' => exact .drop hc (ih h')

/-- What a text without some blanks is made of, part by part. -/
theorem split : ∀ {cs es fs : List Char}, Thins (cs ++ es) fs →
    ∃ ds gs, fs = ds ++ gs ∧ Thins cs ds ∧ Thins es gs
  | [], _, fs, h => ⟨[], fs, rfl, .nil, h⟩
  | _ :: _, _, _, .keep h => by
    obtain ⟨ds, gs, rfl, hcs, hes⟩ := split h
    exact ⟨_ :: ds, gs, rfl, .keep hcs, hes⟩
  | _ :: _, _, _, .drop hc h => by
    obtain ⟨ds, gs, rfl, hcs, hes⟩ := split h
    exact ⟨ds, gs, rfl, .drop hc hcs, hes⟩

theorem subset (h : Thins cs ds) {c : Char} (hc : c ∈ ds) : c ∈ cs := by
  induction h with
  | nil => exact hc
  | keep _ ih =>
    rcases List.mem_cons.1 hc with rfl | hc
    · exact List.mem_cons_self ..
    · exact List.mem_cons_of_mem _ (ih hc)
  | drop _ _ ih => exact List.mem_cons_of_mem _ (ih hc)

theorem sublist (h : Thins cs ds) : ds.Sublist cs := by
  induction h with
  | nil => exact .slnil
  | keep _ ih => exact .cons_cons _ ih
  | drop _ _ ih => exact .cons _ ih

theorem mem_of_not_blank (h : Thins cs ds) {c : Char} (hc : c ∈ cs) (hblank : isBlank c = false) :
    c ∈ ds := by
  induction h with
  | nil => exact hc
  | keep _ ih =>
    rcases List.mem_cons.1 hc with rfl | hc
    · exact List.mem_cons_self ..
    · exact List.mem_cons_of_mem _ (ih hc)
  | drop hdropped _ ih =>
    rcases List.mem_cons.1 hc with rfl | hc
    · rw [hdropped] at hblank
      cases hblank
    · exact ih hc

theorem eq_of_no_blank (h : Thins cs ds) (hcs : ∀ c ∈ cs, isBlank c = false) : ds = cs := by
  induction h with
  | nil => rfl
  | keep _ ih => rw [ih fun c hc => hcs c (List.mem_cons_of_mem _ hc)]
  | @drop c _ _ hc _ _ => exact nomatch hc.symm.trans (hcs c (List.mem_cons_self ..))

end Thins

/-! ### Trimming -/

theorem thins_dropWhile : ∀ cs : List Char, Thins cs (cs.dropWhile isBlank)
  | [] => .nil
  | c :: cs => by
    rw [List.dropWhile_cons]
    split
    · next hc => exact .drop hc (thins_dropWhile cs)
    · exact .refl _

theorem thins_trim (cs : List Char) : Thins cs (trim cs) := by
  refine (thins_dropWhile cs).trans ?_
  let ds := trimLeft cs
  have hsplit : ds = trimRight ds ++ (ds.reverse.takeWhile isBlank).reverse := by
    rw [trimRight, ← List.reverse_append, List.takeWhile_append_dropWhile, List.reverse_reverse]
  have hblank : ∀ c ∈ (ds.reverse.takeWhile isBlank).reverse, isBlank c = true := by
    intro c hc
    exact (List.all_eq_true.1 (List.all_takeWhile ..)) c (List.mem_reverse.1 hc)
  have hthins := (Thins.refl (trimRight ds)).append (.blanks hblank)
  rw [← hsplit, List.append_nil] at hthins
  exact hthins

/-! ### Lines -/

/-- Texts that each end with a character. -/
def ended (sep : Char) (ls : List (List Char)) : List Char := ls.flatMap (· ++ [sep])

theorem ended_append (sep : Char) (ls ms : List (List Char)) :
    ended sep (ls ++ ms) = ended sep ls ++ ended sep ms := List.flatMap_append ..

theorem splitGo_spec (sep : Char) : ∀ (cs piece : List Char) (done : List (List Char)),
    ∃ init final, splitGo sep cs piece done = init ++ [final] ∧
      ended sep init ++ final = ended sep done.reverse ++ piece.reverse ++ cs
  | [], piece, done => ⟨done.reverse, piece.reverse, List.reverse_cons .., (List.append_nil _).symm⟩
  | c :: cs, piece, done => by
    unfold splitGo
    split
    · next hc =>
      obtain ⟨init, final, hgo, hspec⟩ := splitGo_spec sep cs [] (piece.reverse :: done)
      refine ⟨init, final, hgo, hspec.trans ?_⟩
      rw [List.reverse_cons, ended_append, hc]
      simp [ended]
    · obtain ⟨init, final, hgo, hspec⟩ := splitGo_spec sep cs (c :: piece) done
      refine ⟨init, final, hgo, hspec.trans ?_⟩
      simp

/-- The pieces of a text with the separators back between them. -/
theorem split_spec (sep : Char) (cs : List Char) :
    ∃ init final, split sep cs = init ++ [final] ∧ ended sep init ++ final = cs := by
  obtain ⟨init, final, hgo, hspec⟩ := splitGo_spec sep cs [] []
  exact ⟨init, final, hgo, hspec⟩

theorem thins_dropReturn (l : List Char) : Thins l (dropReturn l) := by
  unfold dropReturn
  split
  · next h =>
    obtain ⟨start, rfl⟩ := List.getLast?_eq_some_iff.1 h
    have hreturn : ∀ c ∈ ['\r'], isBlank c = true := List.forall_mem_singleton.2 rfl
    have hthins := (Thins.refl start).append (.blanks hreturn)
    rw [List.append_nil] at hthins
    rwa [List.dropLast_concat]
  · exact .refl l

theorem thins_ended : ∀ ls : List (List Char), Thins (ended '\n' ls) (ended '\n' (ls.map dropReturn))
  | [] => .nil
  | l :: ls => ((thins_dropReturn l).append (.refl ['\n'])).append (thins_ended ls)

theorem intercalate_append_singleton (sep : Char) (final : List Char) :
    ∀ ls : List (List Char), [sep].intercalate (ls ++ [final]) = ended sep ls ++ final
  | [] => List.intercalate_singleton
  | l :: ls => by
    rw [List.cons_append, List.intercalate_cons_of_ne_nil (by simp),
      intercalate_append_singleton sep final ls]
    simp [ended]

/-- The line feed behind the last line is left out. -/
theorem thins_intercalate (ls : List (List Char)) :
    Thins (ended '\n' ls) (['\n'].intercalate ls) := by
  rcases List.eq_nil_or_concat ls with rfl | ⟨init, final, rfl⟩
  · exact .nil
  · rw [List.concat_eq_append, intercalate_append_singleton, ended_append]
    refine (Thins.refl _).append ?_
    have hfeed : ∀ c ∈ ['\n'], isBlank c = true := List.forall_mem_singleton.2 rfl
    have hthins := (Thins.refl final).append (.blanks hfeed)
    rw [List.append_nil] at hthins
    simpa [ended] using hthins

theorem lines_spec (cs : List Char) : ∃ init final, ended '\n' init ++ final = cs ∧
    (lines cs = init.map dropReturn ++ [final] ∨ final = [] ∧ lines cs = init.map dropReturn) := by
  obtain ⟨init, final, hsplit, hspec⟩ := split_spec '\n' cs
  refine ⟨init, final, hspec, ?_⟩
  rw [lines, hsplit]
  simp only [List.dropLast_concat, List.getLast?_concat]
  cases final with
  | nil => exact .inr ⟨rfl, rfl⟩
  | cons c final => exact .inl rfl

/-- Lines that are joined again are the text without some blanks. -/
theorem thins_joinLines (cs : List Char) : Thins cs (['\n'].intercalate (lines cs)) := by
  obtain ⟨init, final, rfl, hlines | ⟨rfl, hlines⟩⟩ := lines_spec cs
  · rw [hlines, intercalate_append_singleton]
    exact (thins_ended init).append (.refl final)
  · rw [hlines, List.append_nil]
    exact (thins_ended init).trans (thins_intercalate _)

theorem joinLines_eq {cs : List Char} (h : '\n' ∉ cs) : ['\n'].intercalate (lines cs) = cs := by
  obtain ⟨init, final, hspec, hlines⟩ := lines_spec cs
  have hinit : init = [] := by
    cases init with
    | nil => rfl
    | cons l ls =>
      refine absurd ?_ h
      rw [← hspec]
      simp [ended]
  subst hinit
  obtain rfl : final = cs := hspec
  rcases hlines with hlines | ⟨rfl, hlines⟩
  · rw [hlines]
    exact List.intercalate_singleton
  · rw [hlines]
    rfl

theorem isPrefix_dropReturn (l : List Char) : dropReturn l <+: l := by
  unfold dropReturn
  split
  · exact List.dropLast_prefix l
  · exact List.prefix_refl l

theorem infix_of_mem_lines {cs l : List Char} (h : l ∈ lines cs) : l <:+: cs := by
  obtain ⟨init, final, rfl, hlines⟩ := lines_spec cs
  have hmem : l ∈ init.map dropReturn ∨ l = final := by
    rcases hlines with hlines | ⟨_, hlines⟩
    · rw [hlines] at h
      simpa using h
    · exact .inl (hlines ▸ h)
  rcases hmem with hmem | rfl
  · obtain ⟨m, hm, rfl⟩ := List.mem_map.1 hmem
    have hline : m ++ ['\n'] ∈ init.map (· ++ ['\n']) := List.mem_map_of_mem hm
    have hinit : m ++ ['\n'] <:+: ended '\n' init := by
      rw [ended, List.flatMap_def]
      exact List.infix_of_mem_flatten hline
    exact ((isPrefix_dropReturn m).trans (List.prefix_append ..)).isInfix.trans
      (hinit.trans (List.prefix_append ..).isInfix)
  · exact (List.suffix_append ..).isInfix

end Reckoner.Text

namespace Reckoner.Spelling

/-! ### Comments -/

theorem beforeSlashes?_eq_none : ∀ {line : List Char} (done : List Char), ¬ ['/', '/'] <:+: line →
    beforeSlashes? line done = none
  | [], _, _ => rfl
  | c :: line, done, h => by
    unfold beforeSlashes?
    split
    · next heq =>
      rw [heq] at h
      exact absurd ⟨[], _, rfl⟩ h
    · next heq =>
      cases heq
      exact beforeSlashes?_eq_none _ fun h' => h (h'.trans (List.suffix_cons ..).isInfix)
    · rfl

theorem cutComment_eq {line : List Char} (hslashes : ¬ ['/', '/'] <:+: line) (hhash : '#' ∉ line) :
    cutComment line = line := by
  rw [cutComment, beforeSlashes?_eq_none [] hslashes]
  refine List.takeWhile_eq_self_iff.2 fun c hc => ?_
  exact bne_iff_ne.2 fun h => hhash (h ▸ hc)

/-- Where no comment starts, the lines are joined as they are. -/
theorem removeComments_eq {cs : List Char} (hslashes : ¬ ['/', '/'] <:+: cs) (hhash : '#' ∉ cs) :
    removeComments cs = ['\n'].intercalate (Text.lines cs) := by
  have hlines : (Text.lines cs).map cutComment = Text.lines cs := by
    refine (List.map_congr_left fun l hl => ?_).trans (List.map_id _)
    have hin := Text.infix_of_mem_lines hl
    exact cutComment_eq (fun h => hslashes (h.trans hin)) fun h => hhash (hin.subset h)
  rw [removeComments, hlines]

end Reckoner.Spelling

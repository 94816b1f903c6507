import Reckoner.Json.Print
import Reckoner.Settings.Read
import Reckoner.Proofs.Json.Numerals

/-!
# JSON texts are read as they are written

`Reads v cs` says that `cs` is read as `v` whatever ends it. Gaps may stand before a text
(`Reads.gap`), strings are read from their quotation (`reads_string`), and an object is read from its
members with commas and gaps between them (`reads_object`). A number is read if its own text is
(`ReadsBack.reads`).
-/

namespace Reckoner.Json

open Decimal (Digits Written)

variable {v : Json} {n : Numeral} {x : Float} {g cs ds rest : List Char} {fuel : Nat}

/-! ### Gaps -/

/-- Blanks that may stand between the parts of a text. -/
def Gap (g : List Char) : Prop := ∀ c ∈ g, isGap c = true

theorem gap_nil : Gap [] := List.forall_mem_nil _

theorem skip_append (hg : Gap g) (cs : List Char) : skip (g ++ cs) = skip cs :=
  List.dropWhile_append_of_pos hg

theorem skip_cons {c : Char} (hc : isGap c = false) (cs : List Char) : skip (c :: cs) = c :: cs :=
  List.dropWhile_cons_of_neg (by rw [hc]; exact Bool.false_ne_true)

/-- A value is read behind the blanks before it. -/
theorem readValue_congr (h : skip cs = skip ds) : readValue fuel cs = readValue fuel ds := by
  cases fuel with
  | zero => rfl
  | succ fuel => rw [readValue, readValue, h]

theorem readMembers_congr (h : skip cs = skip ds) (done : List (Option String × Json)) :
    readMembers fuel done cs = readMembers fuel done ds := by
  cases fuel with
  | zero => rfl
  | succ fuel => rw [readMembers, readMembers, h]

theorem ends_append (hg : Gap g) (hcs : Ends cs) : Ends (g ++ cs) := by
  cases g with
  | nil => exact hcs
  | cons c g =>
    have hc : isGap c = true := hg c (List.mem_cons_self ..)
    refine ends_cons ?_
    simp only [isGap, Bool.or_eq_true, beq_iff_eq] at hc
    rcases hc with ((rfl | rfl) | rfl) | rfl <;> decide

/-- The text is read as `v`, whatever ends it. -/
def Reads (v : Json) (cs : List Char) : Prop :=
  ∀ fuel rest, cs.length < fuel → Ends rest → readValue fuel (cs ++ rest) = some (v, rest)

theorem Reads.gap (h : Reads v cs) (hg : Gap g) : Reads v (g ++ cs) := by
  intro fuel rest hfuel hrest
  rw [List.length_append] at hfuel
  rw [List.append_assoc, readValue_congr (skip_append hg (cs ++ rest))]
  exact h fuel rest (by omega) hrest

theorem Reads.read? (h : Reads v cs) : Json.read? cs = some v := by
  have hread := h _ _ (Nat.lt_succ_self _) ends_nil
  rw [List.append_nil] at hread
  rw [Json.read?, hread]
  rfl

/-! ### Numbers -/

theorem isGap_of_isDigit {c : Char} (hc : c.isDigit = true) : isGap c = false := by
  cases hgap : isGap c with
  | false => rfl
  | true =>
    simp only [isGap, Bool.or_eq_true, beq_iff_eq] at hgap
    rcases hgap with ((rfl | rfl) | rfl) | rfl <;> exact nomatch hc

theorem readValue_of_isDigit {c : Char} (hc : c.isDigit = true) :
    readValue (fuel + 1) (c :: cs) = readNumeral false (c :: cs) := by
  have hother : ∀ {d : Char} {rest : List Char}, d.isDigit = false → c :: cs ≠ d :: rest := by
    rintro d rest hd ⟨⟩
    exact nomatch hc.symm.trans hd
  rw [readValue, skip_cons (isGap_of_isDigit hc)]
  split
  all_goals first | rfl | exact absurd ‹_› (hother rfl)

/-- A number is read behind its sign. -/
theorem readValue_text (hn : n.parts.Proper) :
    readValue (fuel + 1) (n.text ++ rest) = readNumeral n.negative (n.parts.text true ++ rest) := by
  obtain ⟨negative, w⟩ := n
  cases negative with
  | true =>
    have hskip : skip ('-' :: (w.text true ++ rest)) = '-' :: (w.text true ++ rest) := skip_cons rfl _
    show readValue (fuel + 1) ('-' :: (w.text true ++ rest)) = _
    rw [readValue, hskip]
    rfl
  | false =>
    obtain ⟨c, ds, hds⟩ := List.exists_cons_of_ne_nil hn.nonempty
    have hc : c.isDigit = true := hn.whole c (hds ▸ List.mem_cons_self ..)
    dsimp only at hds
    show readValue (fuel + 1) (w.text true ++ rest) = readNumeral false (w.text true ++ rest)
    rw [text_eq, hds]
    exact readValue_of_isDigit hc

theorem reads_number (hn : n.parts.Proper) (hwhole : IsWhole n.parts.whole) :
    Reads (.number n) n.text := by
  intro fuel rest hfuel hrest
  obtain ⟨fuel, rfl⟩ := Nat.exists_eq_add_one_of_ne_zero (Nat.ne_of_gt (Nat.zero_lt_of_lt hfuel))
  rw [readValue_text hn]
  exact readNumeral_text hwhole hn.fraction n.negative hrest

/-- The text of a double is read as that double. -/
def ReadsBack (x : Float) : Prop := (Json.read? (double x).compact).bind double? = some x

instance (x : Float) : Decidable (ReadsBack x) :=
  inferInstanceAs (Decidable ((Json.read? (double x).compact).bind double? = some x))

theorem proper_ofDouble (x : Float) : (Numeral.ofDouble x).parts.Proper := by
  unfold Numeral.ofDouble
  split
  · exact Decimal.Layout.proper_parts _ _
  · have hne : Nat.toDigits 10 0 ≠ [] := Nat.toDigits_ne_nil
    exact ⟨hne, Decimal.digits_toDigits 0, Digits.nil⟩

/-- A numeral whose text is read at all has no zero before other digits. -/
theorem isWhole_of_read? (hn : n.parts.Proper) (hread : (Json.read? n.text).isSome = true) :
    IsWhole n.parts.whole := by
  refine ⟨hn.nonempty, hn.whole, fun {tail} htail => ?_⟩
  cases tail with
  | nil => rfl
  | cons d tail =>
    have hd : d.isDigit = true := hn.whole d (htail ▸ by simp)
    have htext : n.parts.text true = '0' :: d :: (tail ++ (Decimal.fractionText '.' n.parts.fraction ++
        powerText n.parts.exponent)) := by
      rw [text_eq, htail]
      rfl
    have hvalue : readValue (n.text.length + 1) (n.text ++ []) =
        readNumeral n.negative (n.parts.text true ++ []) := readValue_text hn
    rw [List.append_nil, List.append_nil, htext, readNumeral_of_zero hd] at hvalue
    rw [Json.read?, hvalue] at hread
    dsimp only at hread
    rw [skip_cons (isGap_of_isDigit hd), if_neg (List.cons_ne_nil _ _)] at hread
    exact nomatch hread

theorem ReadsBack.reads (h : ReadsBack x) :
    Reads (double x) (double x).compact ∧ double? (double x) = some x := by
  obtain ⟨v, hread, hv⟩ := Option.bind_eq_some_iff.1 h
  have hproper := proper_ofDouble x
  have hsome : (Json.read? (Numeral.ofDouble x).text).isSome = true := by
    show (Json.read? (double x).compact).isSome = true
    rw [hread]
    rfl
  have hreads : Reads (double x) (double x).compact :=
    reads_number hproper (isWhole_of_read? hproper hsome)
  cases hread.symm.trans hreads.read?
  exact ⟨hreads, hv⟩

/-! ### Strings -/

theorem readString_escape {e c : Char} (h : escape? e = some c) (hu : e ≠ 'u') (done : List Char)
    (whole : Bool) (cs : List Char) :
    readString done whole ('\\' :: e :: cs) = readString (c :: done) whole cs := by
  rw [readString, h]
  rintro _ _ _ _ _ rfl
  exact absurd rfl hu

theorem code?_hexDigit :
    ∀ n < 32, code? '0' '0' (hexDigit (n / 16)) (hexDigit (n % 16)) = some n ∧
      isHigh n = false ∧ isLow n = false := by decide

theorem readString_control {c : Char} (hc : c.toNat < 0x20) (done cs : List Char) :
    readString done true
        ('\\' :: 'u' :: '0' :: '0' :: hexDigit (c.toNat / 16) :: hexDigit (c.toNat % 16) :: cs) =
      readString (c :: done) true cs := by
  obtain ⟨hcode, hhigh, hlow⟩ := code?_hexDigit c.toNat hc
  rw [readString, hcode]
  dsimp only
  rw [hhigh, hlow, Char.ofNat_toNat]
  rfl

theorem readString_escaped (done cs : List Char) (c : Char) :
    readString done true (escaped c ++ cs) = readString (c :: done) true cs := by
  unfold escaped
  by_cases hshort : c ∈ ['"', '\\', '\x08', '\x0c', '\n', '\r', '\t']
  · simp only [List.mem_cons, List.not_mem_nil, or_false] at hshort
    rcases hshort with rfl | rfl | rfl | rfl | rfl | rfl | rfl
    all_goals exact readString_escape rfl (by decide) done true cs
  simp only [List.mem_cons, List.not_mem_nil, or_false, not_or] at hshort
  obtain ⟨hquote, hslash, hback, hfeed, hline, hreturn, htab⟩ := hshort
  rw [if_neg hquote, if_neg hslash, if_neg hback, if_neg hfeed, if_neg hline, if_neg hreturn,
    if_neg htab]
  by_cases hcontrol : c.toNat < 0x20
  · rw [if_pos hcontrol]
    exact readString_control hcontrol done cs
  · rw [if_neg hcontrol, List.singleton_append, readString, if_neg (not_or_intro hcontrol hslash)]
    · exact hquote
    · exact fun _ _ _ _ _ h => absurd h hslash
    · exact fun _ _ h => absurd h hslash

theorem readString_flatMap (done cs ds : List Char) :
    readString done true (cs.flatMap escaped ++ ds) = readString (cs.reverse ++ done) true ds := by
  induction cs generalizing done with
  | nil => rfl
  | cons c cs ih =>
    rw [List.flatMap_cons, List.append_assoc, readString_escaped, ih, List.reverse_cons,
      List.append_assoc]
    rfl

theorem readString_quoted (s : String) (rest : List Char) :
    readString [] true (s.toList.flatMap escaped ++ '"' :: rest) = some (some s, rest) := by
  rw [readString_flatMap, readString, List.append_nil, List.reverse_reverse, if_pos rfl,
    String.ofList_toList]

theorem readValue_quote :
    readValue (fuel + 1) ('"' :: cs) = (readString [] true cs).map fun p => (.text p.1, p.2) := by
  rw [readValue, skip_cons rfl]
  rfl

theorem quoted_append (s : String) (rest : List Char) :
    quoted s ++ rest = '"' :: (s.toList.flatMap escaped ++ '"' :: rest) := by simp [quoted]

theorem reads_string (s : String) : Reads (string s) (quoted s) := by
  intro fuel rest hfuel hrest
  obtain ⟨fuel, rfl⟩ := Nat.exists_eq_add_one_of_ne_zero (Nat.ne_of_gt (Nat.zero_lt_of_lt hfuel))
  rw [quoted_append, readValue_quote, readString_quoted]
  rfl

/-! ### Objects -/

/-- A member of an object with the text of its value. -/
structure Member where
  key : String
  value : Json
  text : List Char

namespace Member

def written (m : Member) : List Char := quoted m.key ++ ':' :: m.text

def field (m : Member) : Option String × Json := (some m.key, m.value)

end Member

theorem readMembers_member {m : Member} (hm : Reads m.value m.text)
    (hfuel : m.text.length < fuel) (hrest : Ends rest) (done : List (Option String × Json)) :
    readMembers (fuel + 1) done (m.written ++ rest) =
      match skip rest with
      | ',' :: rest => readMembers fuel (m.field :: done) rest
      | '\x7d' :: rest => some (.object (m.field :: done).reverse, rest)
      | _ => none := by
  have hskip : skip (m.written ++ rest) =
      '"' :: (m.key.toList.flatMap escaped ++ '"' :: ':' :: (m.text ++ rest)) := by
    rw [Member.written, List.append_assoc, quoted_append]
    exact skip_cons rfl _
  have hstring := readString_quoted m.key (':' :: (m.text ++ rest))
  rw [readMembers, hskip]
  simp only [hstring, skip_cons (show isGap ':' = false from rfl), hm _ _ hfuel hrest]
  rfl

theorem Member.length_written (m : Member) : m.text.length < m.written.length := by
  simp only [written, quoted, List.length_append, List.length_cons]
  omega

theorem Member.exists_written (m : Member) : ∃ cs, m.written = '"' :: cs :=
  ⟨_, quoted_append m.key (':' :: m.text)⟩

theorem separated_cons_cons (comma x y : List Char) (zs : List (List Char)) :
    separated comma (x :: y :: zs) = x ++ comma ++ separated comma (y :: zs) := rfl

/-- Members with commas between them are read up to the closing brace. -/
theorem readMembers_separated {g' : List Char} (hg : Gap g) (hg' : Gap g') :
    ∀ {ms : List Member}, ms ≠ [] → (∀ m ∈ ms, Reads m.value m.text) →
      ∀ (fuel : Nat) (done : List (Option String × Json)),
        (separated (',' :: g) (ms.map Member.written)).length < fuel →
        readMembers fuel done
            (separated (',' :: g) (ms.map Member.written) ++ (g' ++ '\x7d' :: rest)) =
          some (.object (done.reverse ++ ms.map Member.field), rest)
  | [m], _, hms, fuel + 1, done, hfuel => by
    have hm : Reads m.value m.text := hms m (List.mem_singleton_self m)
    have hlength := m.length_written
    have hends : Ends (g' ++ '\x7d' :: rest) :=
      ends_append hg' (ends_cons ⟨rfl, by decide, by decide, by decide⟩)
    rw [List.map_singleton, separated] at hfuel ⊢
    rw [readMembers_member hm (by omega) hends, skip_append hg', skip_cons rfl]
    simp
  | m :: m' :: ms, _, hms, fuel + 1, done, hfuel => by
    obtain ⟨hm, hms⟩ := List.forall_mem_cons.1 hms
    have hlength := m.length_written
    have hends : ∀ cs, Ends (',' :: cs) := fun cs =>
      ends_cons ⟨rfl, by decide, by decide, by decide⟩
    have hlater := readMembers_separated hg hg' (List.cons_ne_nil m' ms) hms fuel (m.field :: done)
    rw [List.map_cons, List.map_cons, separated_cons_cons] at hfuel ⊢
    rw [List.append_assoc, List.append_assoc, List.cons_append,
      readMembers_member hm (by simp only [List.length_append] at hfuel; omega) (hends _),
      skip_cons rfl]
    show readMembers fuel (m.field :: done) (g ++ _) = _
    rw [readMembers_congr (skip_append hg _), ← List.map_cons, hlater]
    · simp
    · rw [List.map_cons]
      simp only [List.length_append, List.length_cons] at hfuel
      omega

theorem exists_separated_written (comma : List Char) (m : Member) (ms : List Member) :
    ∃ cs, separated comma ((m :: ms).map Member.written) = '"' :: cs := by
  obtain ⟨cs, hcs⟩ := m.exists_written
  cases ms with
  | nil => exact ⟨cs, hcs⟩
  | cons m' ms =>
    rw [List.map_cons, List.map_cons, separated_cons_cons, hcs]
    exact ⟨_, rfl⟩

theorem readValue_brace :
    readValue (fuel + 1) ('\x7b' :: cs) =
      match skip cs with
      | '\x7d' :: rest => some (.object [], rest)
      | rest => readMembers fuel [] rest := by
  rw [readValue, skip_cons rfl]
  rfl

/-- An object is read from its members, with gaps behind the opening brace, behind each comma and
before the closing brace. -/
theorem reads_object {g₁ g₂ : List Char} (hg₁ : Gap g₁) (hg : Gap g) (hg₂ : Gap g₂)
    {ms : List Member} (hms : ∀ m ∈ ms, Reads m.value m.text) :
    Reads (.object (ms.map Member.field))
      ('\x7b' :: (g₁ ++ separated (',' :: g) (ms.map Member.written) ++ (g₂ ++ ['\x7d']))) := by
  intro fuel rest hfuel hrest
  obtain ⟨fuel, rfl⟩ := Nat.exists_eq_add_one_of_ne_zero (Nat.ne_of_gt (Nat.zero_lt_of_lt hfuel))
  simp only [List.length_cons, List.length_append] at hfuel
  simp only [List.cons_append, List.append_assoc, List.nil_append]
  rw [readValue_brace, skip_append hg₁]
  cases ms with
  | nil =>
    have hclose : skip (g₂ ++ '\x7d' :: rest) = '\x7d' :: rest := by
      rw [skip_append hg₂, skip_cons rfl]
    simp only [List.map_nil, separated, List.nil_append, hclose]
  | cons m ms =>
    have hread : readMembers fuel [] (separated (',' :: g) ((m :: ms).map Member.written) ++
        (g₂ ++ '\x7d' :: rest)) = some (.object ([].reverse ++ (m :: ms).map Member.field), rest) :=
      readMembers_separated hg hg₂ (List.cons_ne_nil m ms) hms fuel [] (by omega)
    obtain ⟨cs, hcs⟩ := exists_separated_written (',' :: g) m ms
    rw [hcs] at hread ⊢
    rw [List.cons_append, skip_cons rfl]
    exact hread

theorem compactMembers_map (members : List (String × Json)) :
    compactMembers (members.map fun m => (some m.1, m.2)) =
      members.map fun m => Member.written ⟨m.1, m.2, m.2.compact⟩ := by
  induction members with
  | nil => rfl
  | cons m members ih =>
    rw [List.map_cons, List.map_cons, compactMembers, ih]
    rfl

theorem reads_fields {members : List (String × Json)}
    (h : ∀ m ∈ members, Reads m.2 m.2.compact) : Reads (fields members) (fields members).compact := by
  let ms : List Member := members.map fun m => ⟨m.1, m.2, m.2.compact⟩
  have hms : ∀ m ∈ ms, Reads m.value m.text := by
    intro m hm
    obtain ⟨e, he, rfl⟩ := List.mem_map.1 hm
    exact h e he
  have hread := reads_object gap_nil gap_nil gap_nil hms
  have hfield : ms.map Member.field = members.map fun m => (some m.1, m.2) := by
    rw [List.map_map]
    rfl
  have hwritten : ms.map Member.written = compactMembers (members.map fun m => (some m.1, m.2)) := by
    rw [compactMembers_map, List.map_map]
    rfl
  rw [hfield, hwritten] at hread
  rw [fields, compact]
  exact hread

end Reckoner.Json

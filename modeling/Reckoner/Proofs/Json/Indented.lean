import Reckoner.Proofs.Json.Doubles

/-!
# Indented JSON texts are read as they are written

The indented text of a value differs from the one on one line by gaps only. An object is read from
it if its values are read from theirs (`readsIndented_fields`); null, texts, doubles and whole
numbers look the same at every depth. The size of an object is that of its lines
(`utf8Len_indentedAt`).
-/

namespace Reckoner.Json

open String (utf8Len)

theorem gap_newLine (depth : Nat) : Gap (newLine depth) := by
  refine List.forall_mem_cons.2 ⟨rfl, fun c hc => ?_⟩
  rw [List.eq_of_mem_replicate hc]
  rfl

theorem gap_blank : Gap [' '] := List.forall_mem_singleton.2 rfl

/-! ### Objects -/

theorem indentedMembers_map (depth : Nat) (members : List (String × Json)) :
    indentedMembers depth (members.map fun m => (some m.1, m.2)) =
      members.map fun m => Member.written ⟨m.1, m.2, ' ' :: indentedAt depth m.2⟩ := by
  induction members with
  | nil => rfl
  | cons m members ih =>
    rw [List.map_cons, List.map_cons, indentedMembers, ih]
    rfl

/-- The value is read from its indented text, at whatever depth that starts. -/
def ReadsIndented (v : Json) : Prop := ∀ depth, Reads v (indentedAt depth v)

theorem ReadsIndented.read? {v : Json} (h : ReadsIndented v) : Json.read? v.indented = some v :=
  (h 0).read?

theorem readsIndented_fields {members : List (String × Json)}
    (h : ∀ m ∈ members, ReadsIndented m.2) : ReadsIndented (fields members) := by
  intro depth
  let ms : List Member := members.map fun m => ⟨m.1, m.2, ' ' :: indentedAt (depth + 1) m.2⟩
  have hms : ∀ m ∈ ms, Reads m.value m.text := by
    intro m hm
    obtain ⟨e, he, rfl⟩ := List.mem_map.1 hm
    exact (h e he (depth + 1)).gap gap_blank
  have hfield : ms.map Member.field = members.map fun m => (some m.1, m.2) := by
    rw [List.map_map]
    rfl
  have hwritten : ms.map Member.written =
      indentedMembers (depth + 1) (members.map fun m => (some m.1, m.2)) := by
    rw [indentedMembers_map, List.map_map]
    rfl
  rw [fields, indentedAt, ← hwritten, ← hfield, block]
  split
  · next hnil =>
    have hread := reads_object gap_nil gap_nil gap_nil hms
    rw [hnil] at hread
    exact hread
  · have hnext := gap_newLine (depth + 1)
    have hread := reads_object hnext hnext (gap_newLine depth) hms
    rw [← List.append_assoc] at hread
    exact hread

/-! ### The size of an indented object -/

/-- The bytes of a member on a line of its own, with the comma before it. -/
def lineSize (depth : Nat) (m : String × Json) : Nat :=
  2 * depth + utf8Len (quoted m.1) + utf8Len (indentedAt depth m.2) + 4

theorem utf8Len_replicate {c : Char} (hc : c.utf8Size = 1) (n : Nat) :
    utf8Len (List.replicate n c) = n := by
  induction n with
  | zero => rfl
  | succ n ih => rw [List.replicate_succ, String.utf8Len_cons, ih, hc]

theorem utf8Len_newLine (depth : Nat) : utf8Len (newLine depth) = 2 * depth + 1 := by
  rw [newLine, String.utf8Len_cons, utf8Len_replicate rfl]
  rfl

theorem utf8Len_separated (comma : List Char) : ∀ (x : List Char) (xs : List (List Char)),
    utf8Len (separated comma (x :: xs)) =
      utf8Len x + (xs.map fun y => utf8Len comma + utf8Len y).sum
  | x, [] => rfl
  | x, y :: ys => by
    rw [separated_cons_cons, String.utf8Len_append, String.utf8Len_append,
      utf8Len_separated comma y ys, List.map_cons, List.sum_cons]
    omega

/-- An object with members has a line for each. -/
theorem utf8Len_indentedAt (depth : Nat) (m : String × Json) (ms : List (String × Json)) :
    utf8Len (indentedAt depth (fields (m :: ms))) =
      2 * depth + 2 + ((m :: ms).map (lineSize (depth + 1))).sum := by
  let line (m : String × Json) : List Char := quoted m.1 ++ ':' :: ' ' :: indentedAt (depth + 1) m.2
  have hlines : indentedMembers (depth + 1) ((m :: ms).map fun m => (some m.1, m.2)) =
      line m :: ms.map line := indentedMembers_map (depth + 1) (m :: ms)
  have hcomma : ','.utf8Size = 1 := rfl
  have hcolon : ':'.utf8Size = 1 := rfl
  have hblank : ' '.utf8Size = 1 := rfl
  have hopen : '\x7b'.utf8Size = 1 := rfl
  have hclose : '\x7d'.utf8Size = 1 := rfl
  have hline : ∀ m, utf8Len (',' :: newLine (depth + 1)) + utf8Len (line m) =
      lineSize (depth + 1) m := by
    intro m
    simp only [line, lineSize, String.utf8Len_append, String.utf8Len_cons, utf8Len_newLine]
    omega
  have hsum : (ms.map line).map (fun y => utf8Len (',' :: newLine (depth + 1)) + utf8Len y) =
      ms.map (lineSize (depth + 1)) := by
    rw [List.map_map]
    exact List.map_congr_left fun m _ => hline m
  have hseparated := utf8Len_separated (',' :: newLine (depth + 1)) (line m) (ms.map line)
  rw [hsum] at hseparated
  have hfirst := hline m
  rw [fields, indentedAt, hlines, block, if_neg (List.cons_ne_nil _ _)]
  simp only [String.utf8Len_append, String.utf8Len_cons, utf8Len_newLine, hseparated,
    String.utf8Len_nil, List.map_cons, List.sum_cons] at hfirst ⊢
  omega

/-! ### Values that look the same at every depth -/

theorem readsIndented_null : ReadsIndented null := by
  intro depth fuel rest hfuel hrest
  obtain ⟨fuel, rfl⟩ := Nat.exists_eq_add_one_of_ne_zero (Nat.ne_of_gt (Nat.zero_lt_of_lt hfuel))
  show readValue (fuel + 1) ('n' :: 'u' :: 'l' :: 'l' :: rest) = some (null, rest)
  rw [readValue, skip_cons rfl]
  rfl

theorem readsIndented_string (s : String) : ReadsIndented (string s) := fun _ => reads_string s

theorem readsIndented_double (x : Float) : ReadsIndented (double x) := fun _ => reads_double x

theorem isWhole_toDigits (n : Nat) : IsWhole (Nat.toDigits 10 n) where
  nonempty := Nat.toDigits_ne_nil
  digits := Decimal.digits_toDigits n
  zero {rest} h := by
    rcases Nat.eq_zero_or_pos n with rfl | hn
    · exact (List.cons.inj h).2.symm
    · exact absurd h (Decimal.toDigits_ne_zero_cons hn rest)

theorem readsIndented_ofNat (n : Nat) : ReadsIndented (number (.ofNat n)) := fun _ =>
  reads_number ⟨Nat.toDigits_ne_nil, Decimal.digits_toDigits n, Decimal.Digits.nil⟩
    (isWhole_toDigits n)

theorem number?_ofNat {n : Nat} (h : n ≤ Numeral.greatest) :
    (Numeral.ofNat n).number? = some (.natural n) := by
  have hplace := Decimal.place_toDigits n
  have hdigits : Numeral.collect 0 (Nat.toDigits 10 n) = (n, []) := by
    rw [Numeral.collect_eq (hplace.trans_le h), hplace]
  unfold Numeral.number? Numeral.ofNat
  dsimp only
  rw [hdigits]
  rfl

theorem count?_ofNat (n : UInt64) : count? (number (.ofNat n.toNat)) = some n := by
  rw [count?, number?_ofNat (Nat.le_pred_of_lt n.toNat_lt)]
  exact congrArg some UInt64.ofNat_toNat

end Reckoner.Json

/-!
# Numbers from digits

`ofDigits` is the number that digits write. It joins neighbouring digits in pairs, then the pairs in
pairs, and so on, so that a long text takes few long multiplications; the number is the one that
taking the digits one by one gives (`ofDigits_eq_foldl`).
-/

namespace Reckoner.Decimal

/-- The value of a digit of a base up to sixteen. -/
def digitValue (c : Char) : Nat :=
  if c.isDigit then c.toNat - '0'.toNat
  else if 'a' ≤ c ∧ c ≤ 'f' then c.toNat - 'a'.toNat + 10
  else if 'A' ≤ c ∧ c ≤ 'F' then c.toNat - 'A'.toNat + 10
  else 0

/-- The number with these places, the lowest first. -/
def ofPlaces (base : Nat) : List Nat → Nat
  | [] => 0
  | p :: ps => p + base * ofPlaces base ps

/-- Joins two neighbouring places into one of the squared base; `done` holds the joined ones,
backwards. -/
def joinPairs (base : Nat) : List Nat → List Nat → List Nat
  | p :: q :: ps, done => joinPairs base ps ((p + base * q) :: done)
  | [p], done => (p :: done).reverse
  | [], done => done.reverse

/-- Joins places until one is left. Every round halves their number. -/
def joinAll : Nat → Nat → List Nat → Nat
  | 0, base, ps => ofPlaces base ps
  | _ + 1, _, [] => 0
  | _ + 1, _, [p] => p
  | rounds + 1, base, p :: q :: ps =>
    joinAll rounds (base * base) (joinPairs base (p :: q :: ps) [])

/-- The number that digits write, the most significant first. -/
def ofDigits (base : Nat) (digits : List Char) : Nat :=
  joinAll digits.length base (digits.reverse.map digitValue)

theorem joinPairs_eq (base : Nat) (ps done : List Nat) :
    joinPairs base ps done = done.reverse ++ joinPairs base ps [] := by
  induction h : ps.length using Nat.strongRecOn generalizing ps done with
  | ind n ih =>
    match ps with
    | [] => simp [joinPairs]
    | [p] => simp [joinPairs]
    | p :: q :: ps =>
      simp only [List.length_cons] at h
      rw [joinPairs, joinPairs, ih ps.length (by omega) ps _ rfl,
        ih ps.length (by omega) ps [p + base * q] rfl]
      simp

theorem ofPlaces_joinPairs (base : Nat) (ps : List Nat) :
    ofPlaces (base * base) (joinPairs base ps []) = ofPlaces base ps := by
  induction h : ps.length using Nat.strongRecOn generalizing ps with
  | ind n ih =>
    match ps with
    | [] => rfl
    | [p] => simp [joinPairs, ofPlaces]
    | p :: q :: ps =>
      simp only [List.length_cons] at h
      rw [joinPairs, joinPairs_eq]
      simp only [List.reverse_cons, List.reverse_nil, List.nil_append, List.singleton_append,
        ofPlaces, ih ps.length (by omega) ps rfl]
      rw [Nat.mul_add, Nat.mul_assoc, Nat.add_assoc]

theorem joinAll_eq_ofPlaces (rounds base : Nat) (ps : List Nat) :
    joinAll rounds base ps = ofPlaces base ps := by
  induction rounds generalizing base ps with
  | zero => rfl
  | succ rounds ih =>
    match ps with
    | [] => rfl
    | [p] => simp [joinAll, ofPlaces]
    | p :: q :: ps => rw [joinAll, ih, ofPlaces_joinPairs]

theorem ofPlaces_map_reverse (base : Nat) (digits : List Char) :
    ofPlaces base (digits.reverse.map digitValue) =
      digits.foldl (fun n c => n * base + digitValue c) 0 := by
  rw [List.foldl_eq_foldr_reverse]
  generalize digits.reverse = ds
  induction ds with
  | nil => rfl
  | cons d ds ih =>
    simp only [List.map_cons, List.foldr_cons, ofPlaces, ih, Nat.mul_comm, Nat.add_comm]

/-- Each digit adds its value to `base` times the number of the digits before it. -/
theorem ofDigits_eq_foldl (base : Nat) (digits : List Char) :
    ofDigits base digits = digits.foldl (fun n c => n * base + digitValue c) 0 := by
  rw [ofDigits, joinAll_eq_ofPlaces, ofPlaces_map_reverse]

end Reckoner.Decimal

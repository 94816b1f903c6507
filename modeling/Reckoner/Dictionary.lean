/-!
# Dictionaries

Finite maps from strings, kept as a list in ascending order of the keys. The order makes the
representation unique: two dictionaries that answer every look-up alike are equal (`ext_get?`).
-/

namespace Reckoner

/-- The entries with `key` bound to `value`, in ascending order again. -/
def bindEntry {α : Type} (key : String) (value : α) : List (String × α) → List (String × α)
  | [] => [(key, value)]
  | (k, v) :: rest =>
    if k = key then (key, value) :: rest
    else if k < key then (k, v) :: bindEntry key value rest
    else (key, value) :: (k, v) :: rest

/-- The value of the first entry with this key. -/
def lookupEntry {α : Type} (key : String) : List (String × α) → Option α
  | [] => none
  | (k, v) :: rest => if k = key then some v else lookupEntry key rest

/-- Entries in strictly ascending order of their keys. -/
def Ascending {α : Type} (entries : List (String × α)) : Prop :=
  entries.Pairwise fun a b => a.1 < b.1

theorem mem_bindEntry {α : Type} {key : String} {value : α} {e : String × α} :
    ∀ {entries : List (String × α)}, e ∈ bindEntry key value entries →
      e = (key, value) ∨ e ∈ entries
  | [], h => by simpa [bindEntry] using h
  | (k, v) :: rest, h => by
    unfold bindEntry at h
    split at h
    · rcases List.mem_cons.1 h with h | h
      · exact .inl h
      · exact .inr (List.mem_cons_of_mem _ h)
    · split at h
      · rcases List.mem_cons.1 h with h | h
        · exact .inr (h ▸ List.mem_cons_self ..)
        · rcases mem_bindEntry h with h | h
          · exact .inl h
          · exact .inr (List.mem_cons_of_mem _ h)
      · exact (List.mem_cons.1 h).imp id id

theorem map_bindEntry {α β : Type} (f : α → β) {key : String} {value : α} :
    ∀ {entries : List (String × α)}, (bindEntry key value entries).map (fun e => (e.1, f e.2)) =
      bindEntry key (f value) (entries.map fun e => (e.1, f e.2))
  | [] => rfl
  | (k, v) :: rest => by
    simp only [bindEntry, List.map_cons]
    split
    · rfl
    · split
      · rw [List.map_cons, map_bindEntry f]
      · rfl

theorem lt_of_not_lt_of_ne {a b : String} (h : ¬ a < b) (hne : a ≠ b) : b < a := by
  rcases Decidable.em (b < a) with hlt | hlt
  · exact hlt
  · exact absurd (String.le_antisymm (String.not_lt.1 hlt) (String.not_lt.1 h)) hne

theorem Ascending.bindEntry {α : Type} {key : String} {value : α} :
    ∀ {entries : List (String × α)}, Ascending entries → Ascending (bindEntry key value entries)
  | [], _ => by simp [Ascending, Reckoner.bindEntry]
  | (k, v) :: rest, h => by
    obtain ⟨hk, hr⟩ := List.pairwise_cons.1 h
    unfold Reckoner.bindEntry
    split
    · next heq => exact List.pairwise_cons.2 ⟨fun e he => heq ▸ hk e he, hr⟩
    · next hne =>
      split
      · next hlt =>
        refine List.pairwise_cons.2 ⟨fun e he => ?_, Ascending.bindEntry hr⟩
        rcases mem_bindEntry he with rfl | he
        · exact hlt
        · exact hk e he
      · next hlt =>
        have hlt' : key < k := lt_of_not_lt_of_ne hlt hne
        refine List.pairwise_cons.2 ⟨fun e he => ?_, h⟩
        rcases List.mem_cons.1 he with rfl | he
        · exact hlt'
        · exact String.lt_trans hlt' (hk e he)

/-- A finite map from strings. -/
structure Dictionary (α : Type) where
  entries : List (String × α)
  ascending : Ascending entries

namespace Dictionary
variable {α : Type}

instance [DecidableEq α] : DecidableEq (Dictionary α) := fun a b =>
  if h : a.entries = b.entries then
    .isTrue (by cases a; cases b; cases h; rfl)
  else .isFalse fun e => h (e ▸ rfl)

def empty : Dictionary α := ⟨[], .nil⟩

instance : Inhabited (Dictionary α) := ⟨empty⟩

def get? (d : Dictionary α) (key : String) : Option α := lookupEntry key d.entries

def contains (d : Dictionary α) (key : String) : Bool := (d.get? key).isSome

/-- Binds a key, replacing an earlier value. -/
def insert (d : Dictionary α) (key : String) (value : α) : Dictionary α :=
  ⟨bindEntry key value d.entries, d.ascending.bindEntry⟩

/-- Binds a key unless it is bound. -/
def insertIfNew (d : Dictionary α) (key : String) (value : α) : Dictionary α :=
  if d.contains key then d else d.insert key value

def size (d : Dictionary α) : Nat := d.entries.length

/-- The keys, ascending. -/
def keys (d : Dictionary α) : List String := d.entries.map (·.1)

/-- The entries bound one after the other, so that the last value of a key counts. -/
def ofList (entries : List (String × α)) : Dictionary α :=
  entries.foldl (fun d e => d.insert e.1 e.2) empty

end Dictionary

theorem lookupEntry_bindEntry {α : Type} (key k : String) (value : α) :
    ∀ entries : List (String × α), Ascending entries →
      lookupEntry k (bindEntry key value entries) =
        if key = k then some value else lookupEntry k entries
  | [], _ => by simp [bindEntry, lookupEntry]
  | (j, v) :: rest, h => by
    obtain ⟨hj, hr⟩ := List.pairwise_cons.1 h
    unfold bindEntry
    split
    · next heq => subst heq; by_cases hk : j = k <;> simp [lookupEntry, hk]
    · next hne =>
      split
      · rw [lookupEntry, lookupEntry_bindEntry key k value rest hr]
        by_cases hjk : j = k
        · have : key ≠ k := fun h => hne (hjk.trans h.symm)
          simp [hjk, this, lookupEntry]
        · simp [hjk, lookupEntry]
      · by_cases hk : key = k <;> simp [lookupEntry, hk]

theorem lookupEntry_eq_none {α : Type} {key : String} :
    ∀ {entries : List (String × α)}, (∀ e ∈ entries, key < e.1) → lookupEntry key entries = none
  | [], _ => rfl
  | (k, v) :: rest, h => by
    have hk : k ≠ key := fun e => String.lt_irrefl key (by simpa [e] using h (k, v) (by simp))
    simp [lookupEntry, hk, lookupEntry_eq_none fun e he => h e (List.mem_cons_of_mem _ he)]

theorem lookupEntry_eq_none_iff {α : Type} {key : String} :
    ∀ {entries : List (String × α)}, lookupEntry key entries = none ↔ key ∉ entries.map (·.1)
  | [] => by simp [lookupEntry]
  | (k, v) :: rest => by
    rw [lookupEntry, List.map_cons, List.mem_cons, not_or, ← lookupEntry_eq_none_iff]
    by_cases hk : k = key
    · simp [hk]
    · simp [hk, Ne.symm hk]

theorem Ascending.nodup_keys {α : Type} {entries : List (String × α)} (h : Ascending entries) :
    (entries.map (·.1)).Nodup := by
  refine List.pairwise_map.2 (h.imp fun {a b} hlt heq => ?_)
  rw [heq] at hlt
  exact String.lt_irrefl _ hlt

theorem Ascending.ext {α : Type} : ∀ {a b : List (String × α)}, Ascending a → Ascending b →
    (∀ k, lookupEntry k a = lookupEntry k b) → a = b
  | [], [], _, _, _ => rfl
  | [], (k, v) :: _, _, _, h => by simpa [lookupEntry] using h k
  | (k, v) :: _, [], _, _, h => by simpa [lookupEntry] using h k
  | (j, u) :: a, (k, v) :: b, ha, hb, h => by
    obtain ⟨hj, ha'⟩ := List.pairwise_cons.1 ha
    obtain ⟨hk, hb'⟩ := List.pairwise_cons.1 hb
    -- the smaller one of two first keys is not in the other list
    have hjk : j = k := by
      rcases Decidable.em (j < k) with hlt | hlt
      · have hn : lookupEntry j ((k, v) :: b) = none := lookupEntry_eq_none fun e he => by
          rcases List.mem_cons.1 he with rfl | he
          · exact hlt
          · exact String.lt_trans hlt (hk e he)
        have := h j
        rw [hn] at this
        simp [lookupEntry] at this
      · rcases Decidable.em (j = k) with heq | hne
        · exact heq
        · have hlt' := lt_of_not_lt_of_ne hlt hne
          have hn : lookupEntry k ((j, u) :: a) = none := lookupEntry_eq_none fun e he => by
            rcases List.mem_cons.1 he with rfl | he
            · exact hlt'
            · exact String.lt_trans hlt' (hj e he)
          have := h k
          rw [hn] at this
          simp [lookupEntry] at this
    subst hjk
    have huv : u = v := by simpa [lookupEntry] using h j
    subst huv
    refine congrArg _ (Ascending.ext ha' hb' fun key => ?_)
    by_cases hkey : j = key
    · subst hkey
      rw [lookupEntry_eq_none fun e he => hj e he, lookupEntry_eq_none fun e he => hk e he]
    · simpa [lookupEntry, hkey] using h key

namespace Dictionary
variable {α : Type}

@[simp] theorem get?_empty (k : String) : (empty : Dictionary α).get? k = none := rfl

theorem get?_insert (d : Dictionary α) (key k : String) (value : α) :
    (d.insert key value).get? k = if key = k then some value else d.get? k :=
  lookupEntry_bindEntry key k value d.entries d.ascending

@[simp] theorem get?_insert_self (d : Dictionary α) (key : String) (value : α) :
    (d.insert key value).get? key = some value := by simp [get?_insert]

theorem get?_insertIfNew (d : Dictionary α) (key k : String) (value : α) :
    (d.insertIfNew key value).get? k = (d.get? k).or (if key = k then some value else none) := by
  unfold insertIfNew contains
  by_cases hk : key = k
  · subst hk
    cases h : d.get? key <;> simp [h]
  · cases h : d.get? key <;> simp [hk, get?_insert]

/-- Entries with different keys, bound one after the other, are found before what was there. -/
theorem get?_foldl_insert (k : String) : ∀ {es : List (String × α)}, (es.map (·.1)).Nodup →
    ∀ d : Dictionary α, (es.foldl (fun d e => d.insert e.1 e.2) d).get? k =
      (lookupEntry k es).or (d.get? k)
  | [], _, _ => rfl
  | (key, x) :: es, h, d => by
    obtain ⟨hkey, hes⟩ := List.nodup_cons.1 h
    rw [List.foldl_cons, get?_foldl_insert k hes, get?_insert, lookupEntry]
    by_cases hk : key = k
    · rw [lookupEntry_eq_none_iff.2 (hk ▸ hkey), if_pos hk, if_pos hk]
      rfl
    · rw [if_neg hk, if_neg hk]

theorem ext_get? {a b : Dictionary α} (h : ∀ k, a.get? k = b.get? k) : a = b := by
  have := Ascending.ext a.ascending b.ascending h
  cases a; cases b; cases this; rfl

theorem insert_of_get? {d : Dictionary α} {key : String} {value : α}
    (h : d.get? key = some value) : d.insert key value = d := by
  refine ext_get? fun k => ?_
  rw [get?_insert]
  split
  · next hk => rw [← hk, h]
  · rfl

/-- Entries in ascending order stay as they are. -/
theorem ofList_of_ascending {es : List (String × α)} (h : Ascending es) : ofList es = ⟨es, h⟩ := by
  refine ext_get? fun k => ?_
  rw [ofList, get?_foldl_insert k h.nodup_keys, get?_empty, Option.or_none]
  rfl

theorem get?_of_mem {d : Dictionary α} {e : String × α} (h : e ∈ d.entries) :
    d.get? e.1 = some e.2 := by
  have hnodup := d.ascending.nodup_keys
  rw [get?]
  generalize d.entries = es at h hnodup
  induction es with
  | nil => exact nomatch h
  | cons e' es ih =>
    obtain ⟨hkey, hes⟩ := List.nodup_cons.1 hnodup
    rw [lookupEntry]
    rcases List.mem_cons.1 h with rfl | h
    · exact if_pos rfl
    · have hne : e'.1 ≠ e.1 := fun heq => hkey (List.mem_map.2 ⟨e, h, heq.symm⟩)
      rw [if_neg hne]
      exact ih h hes

end Dictionary

end Reckoner

/-!
# Maps that remember the order of their keys

Catalogs, error contexts, environments and digests are finite maps whose order shows when
they are printed.  A key keeps the place of its first insertion; inserting it again
changes its value only.

`find?` is the view that every statement about a map goes through: `find?_insert` and
`find?_erase` say what the two operations do to it.
-/

namespace Sysroot

/-- A finite map together with the order in which its keys were first inserted. -/
structure OrderedMap (κ : Type) (α : Type) where
  /-- The pairs in order. -/
  pairs : List (κ × α)
  /-- No key occurs twice. -/
  nodup_keys : (pairs.map Prod.fst).Nodup

namespace OrderedMap

variable {κ α : Type}

/-- The map with no keys. -/
def empty : OrderedMap κ α := ⟨[], List.nodup_nil⟩

instance : Inhabited (OrderedMap κ α) := ⟨empty⟩

/-- The keys in order. -/
def keys (m : OrderedMap κ α) : List κ := m.pairs.map Prod.fst

/-- The values in the order of their keys. -/
def values (m : OrderedMap κ α) : List α := m.pairs.map Prod.snd

/-- How many keys there are. -/
def size (m : OrderedMap κ α) : Nat := m.pairs.length

/-- Whether there are no keys. -/
def isEmpty (m : OrderedMap κ α) : Bool := m.pairs.isEmpty

variable [DecidableEq κ]

/-- The pairs with the value of a key replaced in its place, or the key added at the end. -/
def insertPairs (k : κ) (a : α) : List (κ × α) → List (κ × α)
  | [] => [(k, a)]
  | (k', a') :: r => if k' = k then (k, a) :: r else (k', a') :: insertPairs k a r

theorem mem_keys_insertPairs {k k' : κ} {a : α} {l : List (κ × α)} :
    k' ∈ (insertPairs k a l).map Prod.fst ↔ k' = k ∨ k' ∈ l.map Prod.fst := by
  induction l with
  | nil => simp [insertPairs]
  | cons p r ih =>
      obtain ⟨j, b⟩ := p
      by_cases h : j = k
      · subst h; simp [insertPairs]
      · simp only [insertPairs, if_neg h, List.map_cons, List.mem_cons, ih]
        exact or_left_comm

theorem nodup_insertPairs {k : κ} {a : α} {l : List (κ × α)}
    (h : (l.map Prod.fst).Nodup) : ((insertPairs k a l).map Prod.fst).Nodup := by
  induction l with
  | nil => simp [insertPairs]
  | cons p r ih =>
      obtain ⟨j, b⟩ := p
      simp only [List.map_cons, List.nodup_cons] at h
      by_cases hj : j = k
      · subst hj; simpa [insertPairs] using h
      · simp only [insertPairs, if_neg hj, List.map_cons, List.nodup_cons, mem_keys_insertPairs]
        exact ⟨fun hm => hm.elim hj h.1, ih h.2⟩

/-- Gives a key a value; a new key comes last. -/
def insert (m : OrderedMap κ α) (k : κ) (a : α) : OrderedMap κ α :=
  ⟨insertPairs k a m.pairs, nodup_insertPairs m.nodup_keys⟩

/-- The value of a key. -/
def find? (m : OrderedMap κ α) (k : κ) : Option α :=
  (m.pairs.find? fun p => p.1 = k).map Prod.snd

/-- Whether a key has a value. -/
def contains (m : OrderedMap κ α) (k : κ) : Bool := (m.find? k).isSome

/-- Forgets a key. -/
def erase (m : OrderedMap κ α) (k : κ) : OrderedMap κ α where
  pairs := m.pairs.filter fun p => p.1 ≠ k
  nodup_keys := m.nodup_keys.sublist (List.filter_sublist.map Prod.fst)

/-- Inserts pairs from the left, so that the last value of a key counts. -/
def insertAll (m : OrderedMap κ α) (l : List (κ × α)) : OrderedMap κ α :=
  l.foldl (fun m p => m.insert p.1 p.2) m

/-- The map of a list of pairs, where the last value of a key counts. -/
def ofList (l : List (κ × α)) : OrderedMap κ α := empty.insertAll l

@[simp] theorem find?_empty (k : κ) : (empty : OrderedMap κ α).find? k = none := rfl

/-- Insertion changes the value of its key and of no other. -/
theorem find?_insert (m : OrderedMap κ α) (k k' : κ) (a : α) :
    (m.insert k a).find? k' = if k' = k then some a else m.find? k' := by
  obtain ⟨l, h⟩ := m
  simp only [find?, insert]
  clear h
  induction l with
  | nil => by_cases hk : k = k' <;> simp [insertPairs, hk, eq_comm]
  | cons p r ih =>
      obtain ⟨j, b⟩ := p
      by_cases hj : j = k
      · subst hj
        by_cases hk : j = k'
        · simp [insertPairs, hk]
        · simp [insertPairs, hk, Ne.symm hk]
      · simp only [insertPairs, if_neg hj, List.find?_cons]
        by_cases hk : j = k'
        · subst hk; simp [hj]
        · simpa [hk] using ih

/-- Erasure takes the value of its key and of no other. -/
theorem find?_erase (m : OrderedMap κ α) (k k' : κ) :
    (m.erase k).find? k' = if k' = k then none else m.find? k' := by
  obtain ⟨l, h⟩ := m
  simp only [find?, erase]
  clear h
  induction l with
  | nil => simp
  | cons p r ih =>
      obtain ⟨j, b⟩ := p
      by_cases hj : j = k
      · subst hj
        by_cases hk : k' = j
        · subst hk; simp
        · simpa [hk, Ne.symm hk] using ih
      · by_cases hk : j = k'
        · subst hk; simp [hj]
        · simpa [hj, hk] using ih

/-- The keys after an insertion. -/
theorem mem_keys_insert {m : OrderedMap κ α} {k k' : κ} {a : α} :
    k' ∈ (m.insert k a).keys ↔ k' = k ∨ k' ∈ m.keys :=
  mem_keys_insertPairs

theorem insertPairs_of_notMem {k : κ} {a : α} {l : List (κ × α)} (h : k ∉ l.map Prod.fst) :
    insertPairs k a l = l ++ [(k, a)] := by
  induction l with
  | nil => rfl
  | cons p r ih =>
      obtain ⟨j, b⟩ := p
      rw [List.map_cons, List.mem_cons, not_or] at h
      rw [insertPairs, if_neg (Ne.symm h.1), ih h.2, List.cons_append]

/-- A new key comes last. -/
theorem keys_insert_of_notMem {m : OrderedMap κ α} {k : κ} {a : α} (h : k ∉ m.keys) :
    (m.insert k a).keys = m.keys ++ [k] := by
  show (insertPairs k a m.pairs).map Prod.fst = _
  rw [insertPairs_of_notMem h, List.map_append]
  rfl

/-- Of several inserted values of a key the last one counts. -/
theorem find?_insertAll (m : OrderedMap κ α) (l : List (κ × α)) (k : κ) :
    (m.insertAll l).find? k = ((l.reverse.find? fun p => p.1 = k).map Prod.snd).or (m.find? k) := by
  induction l generalizing m with
  | nil => rfl
  | cons p r ih =>
      rw [insertAll, List.foldl_cons]
      show ((m.insert p.1 p.2).insertAll r).find? k = _
      rw [ih, find?_insert, List.reverse_cons, List.find?_append]
      cases hr : r.reverse.find? fun p => p.1 = k with
      | some q => rfl
      | none =>
          by_cases hk : k = p.1
          · simp [hk]
          · simp [hk, Ne.symm hk]

/-- The pairs of a map are its keys with their values. -/
theorem mem_pairs_iff {m : OrderedMap κ α} {k : κ} {a : α} :
    (k, a) ∈ m.pairs ↔ m.find? k = some a := by
  obtain ⟨l, h⟩ := m
  simp only [find?]
  induction l with
  | nil => simp
  | cons p r ih =>
      obtain ⟨j, b⟩ := p
      rw [List.map_cons, List.nodup_cons] at h
      by_cases hj : j = k
      · subst hj
        have hr : (j, a) ∉ r := fun hmem => h.1 (List.mem_map.2 ⟨_, hmem, rfl⟩)
        simp [hr, eq_comm]
      · simp [hj, Ne.symm hj, ih h.2]

/-- The keys of a map are those with a value. -/
theorem mem_keys_iff {m : OrderedMap κ α} {k : κ} : k ∈ m.keys ↔ (m.find? k).isSome = true := by
  simp [keys, find?]

end OrderedMap

end Sysroot

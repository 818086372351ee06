import Sysroot.Fingerprint.Basic
import Sysroot.Proofs.KeyOrder

/-!
# What a comparison of fingerprints tells

A comparison lists exactly the entries that hold of the two maps (`mem_compare`), each path once
(`nodup_paths_compare`).  Everything else follows from these: the list is empty exactly for maps with
the same digests, it leads as a patch from the expected digests to those found, and with the maps
exchanged it is the same list read the other way round (`compare_exactDiff`).
-/

namespace Sysroot.Fingerprint

variable {f : Fingerprint} {values expected : OrderedMap String String} {path : String}

/-! ## Entries -/

namespace Mismatch

/-- Whether an entry tells how two maps differ at its path. -/
def Holds (values expected : OrderedMap String String) : Mismatch → Prop
  | missing p e => expected.find? p = some e ∧ values.find? p = none
  | changed p e a => expected.find? p = some e ∧ values.find? p = some a ∧ a ≠ e
  | unexpected p a => expected.find? p = none ∧ values.find? p = some a

/-- The entry for the maps exchanged. -/
def swap : Mismatch → Mismatch
  | missing p e => unexpected p e
  | changed p e a => changed p a e
  | unexpected p a => missing p a

/-- Makes the digest of the entry's path the one that was found. -/
def apply (m : OrderedMap String String) : Mismatch → OrderedMap String String
  | missing p _ => m.erase p
  | changed p _ a | unexpected p a => m.insert p a

variable {m : Mismatch}

@[simp] theorem swap_path (m : Mismatch) : m.swap.path = m.path := by cases m <;> rfl

@[simp] theorem swap_swap (m : Mismatch) : m.swap.swap = m := by cases m <;> rfl

theorem swap_expected? (m : Mismatch) : m.swap.expected? = m.actual? := by cases m <;> rfl

theorem swap_actual? (m : Mismatch) : m.swap.actual? = m.expected? := by cases m <;> rfl

theorem holds_swap : m.swap.Holds values expected ↔ m.Holds expected values := by
  cases m with
  | missing p e => exact and_comm
  | changed p e a => exact ⟨fun h => ⟨h.2.1, h.1, h.2.2.symm⟩, fun h => ⟨h.2.1, h.1, h.2.2.symm⟩⟩
  | unexpected p a => exact and_comm

/-- An entry that holds has the digests of both maps, and they differ. -/
theorem Holds.digests (h : m.Holds values expected) :
    m.expected? = expected.find? m.path ∧ m.actual? = values.find? m.path ∧
      values.find? m.path ≠ expected.find? m.path := by
  cases m with
  | missing p e => exact ⟨h.1.symm, h.2.symm, by rw [path, h.1, h.2]; exact nofun⟩
  | changed p e a =>
    refine ⟨h.1.symm, h.2.1.symm, ?_⟩
    rw [path, h.1, h.2.1]
    exact fun heq => h.2.2 (Option.some.inj heq)
  | unexpected p a => exact ⟨h.1.symm, h.2.symm, by rw [path, h.1, h.2]; exact nofun⟩

/-- Of maps that differ at a path some entry for it holds. -/
theorem exists_holds (h : values.find? path ≠ expected.find? path) :
    ∃ m : Mismatch, m.path = path ∧ m.Holds values expected := by
  rcases he : expected.find? path with _ | e <;> rcases ha : values.find? path with _ | a
  · exact absurd (ha.trans he.symm) h
  · exact ⟨unexpected path a, rfl, he, ha⟩
  · exact ⟨missing path e, rfl, he, ha⟩
  · refine ⟨changed path e a, rfl, he, ha, ?_⟩
    rintro rfl
    exact h (ha.trans he.symm)

/-- Applying an entry changes the digest of its path and of no other. -/
theorem find?_apply (m : Mismatch) (map : OrderedMap String String) (p : String) :
    (m.apply map).find? p = if p = m.path then m.actual? else map.find? p := by
  cases m with
  | missing q e => exact OrderedMap.find?_erase map q p
  | changed q e a => exact OrderedMap.find?_insert map q p a
  | unexpected q a => exact OrderedMap.find?_insert map q p a

end Mismatch

/-! ## Patches -/

/-- A map with the entries of a list applied from the left. -/
def patch (map : OrderedMap String String) (entries : List Mismatch) : OrderedMap String String :=
  entries.foldl Mismatch.apply map

/-- A patch whose entries have different paths gives each path the digest found, and leaves the
others. -/
theorem find?_patch {entries : List Mismatch} (hnodup : (entries.map Mismatch.path).Nodup)
    (map : OrderedMap String String) (p : String) :
    (∀ m ∈ entries, m.path = p → (patch map entries).find? p = m.actual?) ∧
      (p ∉ entries.map Mismatch.path → (patch map entries).find? p = map.find? p) := by
  induction entries generalizing map with
  | nil => exact ⟨nofun, fun _ => rfl⟩
  | cons m rest ih =>
    rw [List.map_cons, List.nodup_cons] at hnodup
    obtain ⟨hinside, houtside⟩ := ih hnodup.2 (m.apply map)
    constructor
    · intro m' hm' hp
      rcases List.mem_cons.1 hm' with rfl | hm'
      · subst hp
        rw [patch, List.foldl_cons]
        exact (houtside hnodup.1).trans (by rw [Mismatch.find?_apply, if_pos rfl])
      · exact hinside m' hm' hp
    · intro hp
      rw [List.map_cons, List.mem_cons, not_or] at hp
      rw [patch, List.foldl_cons]
      exact (houtside hp.2).trans (by rw [Mismatch.find?_apply, if_neg hp.1])

/-! ## The two passes -/

/-- The entries for the expected paths in order. -/
def expectedPass (values expected : OrderedMap String String) : List Mismatch :=
  (inOrder expected).filterMap fun p => match values.find? p.1 with
    | none => some (.missing p.1 p.2)
    | some a => if a = p.2 then none else some (.changed p.1 p.2 a)

/-- The entries for the other paths in order. -/
def unexpectedPass (values expected : OrderedMap String String) : List Mismatch :=
  (inOrder values).filterMap fun p =>
    if expected.contains p.1 then none else some (.unexpected p.1 p.2)

theorem compare_eq (f : Fingerprint) (expected : OrderedMap String String) :
    f.compare expected = expectedPass f.values expected ++ unexpectedPass f.values expected := rfl

/-- The pairs in order are the keys with their values. -/
theorem mem_inOrder {map : OrderedMap String String} {p : String × String} :
    p ∈ inOrder map ↔ map.find? p.1 = some p.2 :=
  List.mem_mergeSort.trans OrderedMap.mem_pairs_iff

/-- What the first pass lists are the entries that hold and have an expected digest. -/
theorem mem_expectedPass {m : Mismatch} :
    m ∈ expectedPass values expected ↔ m.Holds values expected ∧ m.expected?.isSome := by
  rw [expectedPass, List.mem_filterMap]
  constructor
  · rintro ⟨⟨p, e⟩, hp, hm⟩
    have he : expected.find? p = some e := mem_inOrder.1 hp
    split at hm
    · next hnone =>
      cases hm
      exact ⟨⟨he, hnone⟩, rfl⟩
    · next a ha =>
      split at hm
      · cases hm
      · next hne =>
        cases hm
        exact ⟨⟨he, ha, hne⟩, rfl⟩
  · rintro ⟨hholds, hsome⟩
    cases m with
    | missing p e =>
      refine ⟨(p, e), mem_inOrder.2 hholds.1, ?_⟩
      simp only [hholds.2]
    | changed p e a =>
      refine ⟨(p, e), mem_inOrder.2 hholds.1, ?_⟩
      simp only [hholds.2.1, if_neg hholds.2.2]
    | unexpected p a => cases hsome

/-- What the second pass lists are the entries that hold and have no expected digest. -/
theorem mem_unexpectedPass {m : Mismatch} :
    m ∈ unexpectedPass values expected ↔ m.Holds values expected ∧ m.expected? = none := by
  rw [unexpectedPass, List.mem_filterMap]
  constructor
  · rintro ⟨⟨p, a⟩, hp, hm⟩
    split at hm
    · cases hm
    · next hnot =>
      cases hm
      exact ⟨⟨Option.not_isSome_iff_eq_none.1 hnot, mem_inOrder.1 hp⟩, rfl⟩
  · rintro ⟨hholds, hnone⟩
    cases m with
    | missing p e => cases hnone
    | changed p e a => cases hnone
    | unexpected p a =>
      refine ⟨(p, a), mem_inOrder.2 hholds.2, ?_⟩
      simp only [OrderedMap.contains, hholds.1, Option.isSome_none, Bool.false_eq_true, if_false]

/-- A comparison lists the entries that hold. -/
theorem mem_compare {m : Mismatch} : m ∈ f.compare expected ↔ m.Holds f.values expected := by
  rw [compare_eq, List.mem_append, mem_expectedPass, mem_unexpectedPass, ← and_or_left,
    Option.isSome_iff_ne_none]
  exact and_iff_left (em' _)

/-- Entries made from pairs, each with the key of its pair as its path, have paths in the order of
the keys. -/
theorem paths_filterMap_sublist {entry : String × String → Option Mismatch}
    (h : ∀ p m, entry p = some m → m.path = p.1) (pairs : List (String × String)) :
    ((pairs.filterMap entry).map Mismatch.path).Sublist (pairs.map Prod.fst) := by
  induction pairs with
  | nil => exact .slnil
  | cons p rest ih =>
    rw [List.filterMap_cons]
    cases hp : entry p with
    | none => exact ih.cons p.1
    | some m =>
      rw [List.map_cons, List.map_cons, h p m hp]
      exact ih.cons_cons p.1

theorem increasing_expectedPass (values expected : OrderedMap String String) :
    ((expectedPass values expected).map Mismatch.path).Pairwise (· < ·) := by
  refine expected.sorted_keys.sublist (paths_filterMap_sublist (fun p m hm => ?_) _)
  split at hm
  · cases hm
    rfl
  · split at hm
    · cases hm
    · cases hm
      rfl

theorem increasing_unexpectedPass (values expected : OrderedMap String String) :
    ((unexpectedPass values expected).map Mismatch.path).Pairwise (· < ·) := by
  refine values.sorted_keys.sublist (paths_filterMap_sublist (fun p m hm => ?_) _)
  split at hm
  · cases hm
  · cases hm
    rfl

/-- A comparison names no path twice. -/
theorem nodup_paths_compare (f : Fingerprint) (expected : OrderedMap String String) :
    ((f.compare expected).map Mismatch.path).Nodup := by
  rw [compare_eq, List.map_append]
  refine List.nodup_append.2 ⟨(increasing_expectedPass _ _).imp ne_of_lt,
    (increasing_unexpectedPass _ _).imp ne_of_lt, ?_⟩
  rintro p hp q hq rfl
  obtain ⟨m, hm, rfl⟩ := List.mem_map.1 hp
  obtain ⟨m', hm', hpath⟩ := List.mem_map.1 hq
  obtain ⟨hholds, hsome⟩ := mem_expectedPass.1 hm
  obtain ⟨hholds', hnone⟩ := mem_unexpectedPass.1 hm'
  rw [hholds.digests.1, ← hpath, ← hholds'.digests.1, hnone] at hsome
  cases hsome

/-- The paths of a comparison are those at which the maps differ. -/
theorem mem_paths_compare :
    path ∈ (f.compare expected).map Mismatch.path ↔ f.values.find? path ≠ expected.find? path := by
  rw [List.mem_map]
  constructor
  · rintro ⟨m, hm, rfl⟩
    exact (mem_compare.1 hm).digests.2.2
  · intro hne
    obtain ⟨m, hpath, hholds⟩ := Mismatch.exists_holds hne
    exact ⟨m, mem_compare.2 hholds, hpath⟩

/-! ## The comparison as a whole -/

/-- A comparison is an exact difference.  It lists nothing exactly if the maps have the same digests.
It names each path at which they differ once, with both digests: first, by increasing path, those
that are missing or changed, then, again by increasing path, those that are unexpected.  As a patch it
leads from the expected digests to those found.  With the maps exchanged it has the same entries, with
missing and unexpected paths and the two digests exchanged. -/
theorem compare_exactDiff (f : Fingerprint) (expected : OrderedMap String String) :
    (f.compare expected = [] ↔ ∀ p, f.values.find? p = expected.find? p) ∧
    ((f.compare expected).map Mismatch.path).Nodup ∧
    (∀ p, p ∈ (f.compare expected).map Mismatch.path ↔ f.values.find? p ≠ expected.find? p) ∧
    (∀ m ∈ f.compare expected,
      m.expected? = expected.find? m.path ∧ m.actual? = f.values.find? m.path) ∧
    (∃ first second, f.compare expected = first ++ second ∧
      (∀ m ∈ first, m.reason = "missing_actual" ∧ m.actual? = none ∨
        m.reason = "value_mismatch" ∧ m.actual?.isSome ∧ m.expected?.isSome) ∧
      (first.map Mismatch.path).Pairwise (· < ·) ∧
      (∀ m ∈ second, m.reason = "unexpected_actual" ∧ m.expected? = none) ∧
      (second.map Mismatch.path).Pairwise (· < ·)) ∧
    (∀ p, (patch expected (f.compare expected)).find? p = f.values.find? p) ∧
    ({ f with values := expected }.compare f.values).Perm
      ((f.compare expected).map Mismatch.swap) := by
  have hnodup := nodup_paths_compare f expected
  have hpaths : ∀ p, p ∈ (f.compare expected).map Mismatch.path ↔
      f.values.find? p ≠ expected.find? p := fun p => mem_paths_compare
  refine ⟨?_, hnodup, hpaths, fun m hm => ?_, ?_, fun p => ?_, ?_⟩
  · rw [← List.map_eq_nil_iff (f := Mismatch.path), List.eq_nil_iff_forall_not_mem]
    exact forall_congr' fun p => by rw [hpaths, not_not]
  · obtain ⟨hexpected, hactual, -⟩ := (mem_compare.1 hm).digests
    exact ⟨hexpected, hactual⟩
  · refine ⟨_, _, compare_eq f expected, fun m hm => ?_, increasing_expectedPass _ _,
      fun m hm => ?_, increasing_unexpectedPass _ _⟩
    · have hsome := (mem_expectedPass.1 hm).2
      cases m with
      | missing p e => exact .inl ⟨rfl, rfl⟩
      | changed p e a => exact .inr ⟨rfl, rfl, rfl⟩
      | unexpected p a => cases hsome
    · have hnone := (mem_unexpectedPass.1 hm).2
      cases m with
      | missing p e => cases hnone
      | changed p e a => cases hnone
      | unexpected p a => exact ⟨rfl, rfl⟩
  · obtain ⟨hinside, houtside⟩ := find?_patch hnodup expected p
    by_cases hp : p ∈ (f.compare expected).map Mismatch.path
    · obtain ⟨m, hm, rfl⟩ := List.mem_map.1 hp
      rw [hinside m hm rfl, (mem_compare.1 hm).digests.2.1]
    · rw [houtside hp]
      exact (not_not.1 fun hne => hp ((hpaths p).2 hne)).symm
  · have hswapped : (((f.compare expected).map Mismatch.swap).map Mismatch.path).Nodup := by
      simpa only [List.map_map, Function.comp_def, Mismatch.swap_path] using hnodup
    refine (List.perm_ext_iff_of_nodup (.of_map _ (nodup_paths_compare _ _))
      (.of_map _ hswapped)).2 fun m => ?_
    rw [mem_compare, List.mem_map]
    constructor
    · intro hholds
      exact ⟨m.swap, mem_compare.2 (Mismatch.holds_swap.2 hholds), m.swap_swap⟩
    · rintro ⟨m', hm', rfl⟩
      exact Mismatch.holds_swap.2 (mem_compare.1 hm')

end Sysroot.Fingerprint

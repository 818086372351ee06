import Sysroot.Proofs.Catalog.Order

/-!
# The least order of a request

Of the lists in which each library of a request stands once and after its prerequisites in the
request, `order` gives the one that comes first when libraries are compared by their place in the
catalog: whoever takes the least library that can follow at each place stays ahead of every
other list (`LeastNext.lex`), and there is only one such list (`LeastNext.unique`).  When there is
none, some libraries of the request are behind a cycle, and those are reported
(`order_isLeast`).
-/

namespace Sysroot.Catalog

variable {c : Catalog} {request order other : List Library} {l : Library}

/-- Whether a list holds each library of a request once and after its prerequisites in the
request. -/
structure IsOrder (c : Catalog) (request order : List Library) : Prop where
  nodup : order.Nodup
  mem_iff : ∀ l, l ∈ order ↔ l ∈ request
  first : PrerequisitesFirst c request order

namespace IsOrder

/-- What is next in an order could follow what is before it. -/
theorem next {before after : List Library} (h : IsOrder c request order)
    (heq : order = before ++ l :: after) :
    l ∈ request ∧ l ∉ before ∧ ∀ d ∈ c.requires l, d ∈ request → d ∈ before := by
  refine ⟨(h.mem_iff l).1 (heq ▸ by simp), fun hl => ?_, h.first before l after heq⟩
  have hnodup := h.nodup
  rw [heq] at hnodup
  exact (List.nodup_append.1 hnodup).2.2 l hl l List.mem_cons_self rfl

theorem length_eq (h : IsOrder c request order) (h' : IsOrder c request other) :
    order.length = other.length :=
  ((List.perm_ext_iff_of_nodup h.nodup h'.nodup).2 fun l =>
    (h.mem_iff l).trans (h'.mem_iff l).symm).length_eq

/-- Only the members of a request matter for its orders. -/
theorem of_mem_iff {request' : List Library} (h : IsOrder c request' order)
    (hmem : ∀ l, l ∈ request' ↔ l ∈ request) : IsOrder c request order where
  nodup := h.nodup
  mem_iff l := (h.mem_iff l).trans (hmem l)
  first before l after heq d hd hreq := h.first before l after heq d hd ((hmem d).2 hreq)

end IsOrder

/-! ## The first order by places in the catalog -/

/-- After a common beginning, an order that always takes the least library is ahead of another
order: the first difference decides, by the places in the catalog. -/
theorem LeastNext.lex_of_common (h : IsOrder c request order) (hleast : LeastNext c request order)
    (hin : ∀ l ∈ request, l ∈ c.keys) (h' : IsOrder c request other) :
    ∀ rest common rest', order = common ++ rest → other = common ++ rest' →
      rest = rest' ∨ List.Lex (fun l m => c.rank l < c.rank m) rest rest' := by
  intro rest
  induction rest with
  | nil =>
    intro common rest' horder hother
    have hlength := h.length_eq h'
    rw [horder, hother, List.length_append, List.length_append, List.length_nil] at hlength
    exact .inl (List.eq_nil_of_length_eq_zero (by omega)).symm
  | cons l rest ih =>
    intro common rest' horder hother
    cases rest' with
    | nil =>
      have hlength := h.length_eq h'
      rw [horder, hother, List.length_append, List.length_append, List.length_cons,
        List.length_nil] at hlength
      omega
    | cons m rest' =>
      obtain ⟨hm, hmnew, hmfirst⟩ := h'.next hother
      have hle := hleast common l rest horder m hm hmnew hmfirst
      by_cases hlm : l = m
      · subst hlm
        rcases ih (common ++ [l]) rest' (by simp [horder]) (by simp [hother]) with rfl | hlex
        · exact .inl rfl
        · exact .inr (.cons hlex)
      · refine .inr (.rel (Nat.lt_of_le_of_ne hle fun heq => hlm ?_))
        exact rank_injective (hin l (h.next horder).1) heq

/-- An order that always takes the least library comes before every other order. -/
theorem LeastNext.lex (h : IsOrder c request order) (hleast : LeastNext c request order)
    (hin : ∀ l ∈ request, l ∈ c.keys) (h' : IsOrder c request other) :
    order = other ∨ List.Lex (fun l m => c.rank l < c.rank m) order other :=
  hleast.lex_of_common h hin h' order [] other rfl rfl

/-- There is one order that always takes the least library. -/
theorem LeastNext.unique (h : IsOrder c request order) (hleast : LeastNext c request order)
    (hin : ∀ l ∈ request, l ∈ c.keys) (h' : IsOrder c request other)
    (hleast' : LeastNext c request other) : order = other := by
  rcases hleast.lex h hin h' with heq | hlex
  · exact heq
  rcases hleast'.lex h' hin h with heq | hlex'
  · exact heq.symm
  · exact absurd hlex' (List.lex_asymm (fun hlm hml => Nat.lt_asymm hlm hml) hlex)

/-! ## Cycles -/

/-- The prerequisites of what is placed are placed before it. -/
theorem PrerequisitesFirst.idxOf_lt {placed : List Library} {d : Library} (hnodup : placed.Nodup)
    (h : PrerequisitesFirst c request placed) (hl : l ∈ placed) (hd : Needs c request l d) :
    d ∈ placed ∧ placed.idxOf d < placed.idxOf l := by
  obtain ⟨before, after, rfl⟩ := List.append_of_mem hl
  have hin : d ∈ before := h before l after rfl d hd.2.2 hd.2.1
  have hnew : l ∉ before := fun hl => (List.nodup_append.1 hnodup).2.2 l hl l List.mem_cons_self rfl
  refine ⟨List.mem_append_left _ hin, ?_⟩
  rw [List.idxOf_append_of_mem hin, List.idxOf_append_of_notMem hnew, List.idxOf_cons_self,
    Nat.add_zero]
  exact List.idxOf_lt_length_iff.2 hin

/-- From what is placed prerequisites lead to what is placed before it. -/
theorem PrerequisitesFirst.idxOf_lt_of_transGen {placed : List Library} {d : Library}
    (hnodup : placed.Nodup) (h : PrerequisitesFirst c request placed) (hl : l ∈ placed)
    (hd : Relation.TransGen (Needs c request) l d) :
    d ∈ placed ∧ placed.idxOf d < placed.idxOf l := by
  induction hd with
  | single hd => exact h.idxOf_lt hnodup hl hd
  | tail _ hd ih =>
    obtain ⟨hmem, hlt⟩ := h.idxOf_lt hnodup ih.1 hd
    exact ⟨hmem, Nat.lt_trans hlt ih.2⟩

/-- What the sorting of a request does not place is what is behind a cycle in it. -/
theorem notMem_placedOf_iff (hl : l ∈ request) :
    l ∉ c.placedOf request ↔ BehindCycle (Needs c request) l := by
  obtain ⟨waits, h⟩ := placedOf_sorting c request
  constructor
  · intro hnew
    refine behindCycle_of_step (P := fun x => x ∈ request ∧ x ∉ c.placedOf request) ?_ ⟨hl, hnew⟩
    intro x hx
    obtain ⟨d, hd, hdp⟩ := h.exists_unplaced hx.1 hx.2
    exact ⟨d, hd, hd.2.1, hdp⟩
  · rintro ⟨m, hlm, hm⟩ hplaced
    have hnodup := (List.nodup_append.1 h.nodup).1
    have hmp : m ∈ c.placedOf request :=
      mem_of_reflTransGen (fun x y hx hxy => (h.first.idxOf_lt hnodup hx hxy).1) hlm hplaced
    exact Nat.lt_irrefl _ (h.first.idxOf_lt_of_transGen hnodup hmp hm).2

theorem forall_mem_placedOf_iff : (∀ l ∈ request, l ∈ c.placedOf request) ↔
    ∀ l, ¬ Relation.TransGen (Needs c request) l l := by
  rw [← not_behindCycle_iff]
  constructor
  · intro h l hl
    exact (notMem_placedOf_iff hl.mem).2 hl (h l hl.mem)
  · intro h l hl
    by_contra hnew
    exact h l ((notMem_placedOf_iff hl).1 hnew)

/-- The libraries of a catalog are in the order of their places. -/
theorem pairwise_keys (c : Catalog) : c.keys.Pairwise fun l m => c.rank l ≤ c.rank m := by
  have hnodup : c.keys.Nodup := c.nodup_keys
  refine List.pairwise_iff_getElem.2 fun i j hi hj hij => ?_
  rw [rank, rank, hnodup.idxOf_getElem i hi, hnodup.idxOf_getElem j hj]
  exact Nat.le_of_lt hij

/-- Libraries of a catalog that are sorted by their places are in the order of the catalog. -/
theorem sublist_keys {ls : List Library} (hnodup : ls.Nodup) (hin : ∀ l ∈ ls, l ∈ c.keys)
    (hsorted : ls.Pairwise fun l m => c.rank l ≤ c.rank m) : ls.Sublist c.keys := by
  have hperm : ls.Perm (c.keys.filter (· ∈ ls)) := by
    refine (List.perm_ext_iff_of_nodup hnodup (c.nodup_keys.filter _)).2 fun l => ?_
    rw [List.mem_filter, decide_eq_true_eq]
    exact ⟨fun hl => ⟨hin l hl, hl⟩, And.right⟩
  have heq : ls = c.keys.filter (· ∈ ls) :=
    hperm.eq_of_pairwise (fun l m hl _ hlm hml => rank_injective (hin l hl) (Nat.le_antisymm hlm hml))
      hsorted ((pairwise_keys c).filter _)
  rw [heq]
  exact List.filter_sublist

/-- When its prerequisites make no cycle, a request of libraries in the catalog has an order:
each library once and after its prerequisites in the request, and at each place the first library of
the catalog that could be there.  It is the first of all such lists by the places of libraries in
the catalog, and depends on nothing but which libraries are requested.  Otherwise the libraries of
the request that are behind a cycle are reported, in the order of the catalog. -/
theorem order_isLeast (hin : ∀ l ∈ request, c.contains l = true) :
    ((∀ l, ¬ Relation.TransGen (Needs c request) l l) →
      ∃ order, c.order request = .ok order ∧ IsOrder c request order ∧
        LeastNext c request order ∧
        (∀ other, IsOrder c request other →
          order = other ∨ List.Lex (fun l m => c.rank l < c.rank m) order other) ∧
        ∀ request', (∀ l, l ∈ request' ↔ l ∈ request) → c.order request' = .ok order) ∧
    ((∃ l, Relation.TransGen (Needs c request) l l) →
      ∃ left, c.order request = .error (.prerequisiteCycle left) ∧ left.Sublist c.keys ∧
        ∀ l, l ∈ left ↔ BehindCycle (Needs c request) l) := by
  have hkeys : ∀ l ∈ request, l ∈ c.keys := fun l hl => OrderedMap.mem_keys_iff.2 (hin l hl)
  have hplaced : ∀ request', (∀ l, l ∈ request' ↔ l ∈ request) →
      (∀ l, ¬ Relation.TransGen (Needs c request) l l) →
      c.order request' = .ok (c.placedOf request') ∧ IsOrder c request (c.placedOf request') ∧
        LeastNext c request (c.placedOf request') := by
    intro request' hmem hacyclic
    have hneeds : Needs c request' = Needs c request := by
      funext l d
      simp only [Needs, hmem]
    have hall := forall_mem_placedOf_iff.2 (hneeds ▸ hacyclic)
    obtain ⟨waits, h⟩ := placedOf_sorting c request'
    have horder : IsOrder c request' (c.placedOf request') :=
      ⟨(List.nodup_append.1 h.nodup).1, fun l => ⟨mem_of_mem_placedOf, hall l⟩, h.first⟩
    refine ⟨?_, horder.of_mem_iff hmem, fun before l after heq m hm hnew hfirst => ?_⟩
    · rw [order_eq fun l hl => hin l ((hmem l).1 hl), if_pos hall]
    · exact h.least before l after heq m ((hmem m).2 hm) hnew fun d hd hreq =>
        hfirst d hd ((hmem d).1 hreq)
  constructor
  · intro hacyclic
    obtain ⟨hok, horder, hleast⟩ := hplaced request (fun _ => Iff.rfl) hacyclic
    refine ⟨_, hok, horder, hleast, fun other => hleast.lex horder hkeys, fun request' hmem => ?_⟩
    obtain ⟨hok', horder', hleast'⟩ := hplaced request' hmem hacyclic
    rw [hok', hleast.unique horder hkeys horder' hleast']
  · rintro ⟨l, hl⟩
    have hleft : ∀ l, l ∈ c.byRank (request.eraseDups.filter (· ∉ c.placedOf request)) ↔
        BehindCycle (Needs c request) l := fun l => by
      rw [mem_byRank, List.mem_filter, List.mem_eraseDups, decide_eq_true_eq]
      exact ⟨fun h => (notMem_placedOf_iff h.1).1 h.2, fun h => ⟨h.mem, (notMem_placedOf_iff h.mem).2 h⟩⟩
    refine ⟨_, ?_, ?_, hleft⟩
    · rw [order_eq hin, if_neg fun hall => forall_mem_placedOf_iff.1 hall l hl]
    · refine sublist_keys ?_ (fun l hl => hkeys l ((hleft l).1 hl).mem) (pairwise_byRank c _)
      exact (byRank_perm c _).nodup_iff.2 ((nodup_eraseDups request).filter _)

/-- A library of headers alone. -/
def bare (l : Library) (requires : List Library) : Library × Entry :=
  (l, { library := l, role := "headers", kind := .native, recipe := some .headers, source := l.name,
        requires := requires })

/-- A catalog in which two libraries require each other, one of them twice, and a third one
requires them. -/
def entangled : Catalog := .ofList [bare .compat [], bare .zlib [.compat, .libc],
  bare .libc [.dlmalloc, .dlmalloc], bare .dlmalloc [.libcxx, .libc]]

theorem order_isLeast_entangled :
    (∀ l ∈ [.dlmalloc, .zlib, .compat, .libc, .zlib], entangled.contains l = true) ∧
      ∃ left, entangled.order [.dlmalloc, .zlib, .compat, .libc, .zlib] =
          .error (.prerequisiteCycle left) ∧
        left.Sublist entangled.keys ∧ .zlib ∈ left ∧ .compat ∉ left := by
  have hin : ∀ l ∈ [.dlmalloc, .zlib, .compat, .libc, .zlib], entangled.contains l = true := by
    decide
  have hneeds : ∀ l d, l ∈ [.dlmalloc, .zlib, .compat, .libc, .zlib] →
      d ∈ [.dlmalloc, .zlib, .compat, .libc, .zlib] → d ∈ entangled.requires l →
      Needs entangled [.dlmalloc, .zlib, .compat, .libc, .zlib] l d :=
    fun l d hl hd hreq => ⟨hl, hd, hreq⟩
  have hcycle : Relation.TransGen (Needs entangled [.dlmalloc, .zlib, .compat, .libc, .zlib])
      .libc .libc :=
    .tail (.single (hneeds .libc .dlmalloc (by decide) (by decide) (by decide)))
      (hneeds .dlmalloc .libc (by decide) (by decide) (by decide))
  obtain ⟨left, herror, hsub, hleft⟩ := (order_isLeast hin).2 ⟨_, hcycle⟩
  refine ⟨hin, left, herror, hsub, (hleft _).2 ⟨.libc, ?_, hcycle⟩, fun hcompat => ?_⟩
  · exact .single (hneeds .zlib .libc (by decide) (by decide) (by decide))
  · obtain ⟨m, hm, hself⟩ := (hleft _).1 hcompat
    obtain ⟨d, hd, -⟩ := Relation.TransGen.head'_iff.1 (Relation.TransGen.trans_right hm hself)
    have hnone : entangled.requires .compat = [] := by decide
    rw [Needs, hnone] at hd
    cases hd.2.2

end Sysroot.Catalog

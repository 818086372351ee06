import Sysroot.Proofs.Catalog.Prerequisites
import Sysroot.Proofs.Effect

/-!
# What a build order is

The sorting of a request keeps an account of its counters (`Sorting`): each library waits for
just those of its prerequisites in the request that are not placed, and those that wait for none
are placed or ready.  So each library is placed after its prerequisites in the request and before
everything else that could have come instead of it, and the counters of the libraries that are
never placed do not get to zero: each of them waits for another one (`Sorting.exists_unplaced`).
-/

namespace Sysroot.Catalog

variable {c : Catalog} {request : List Library}

/-- Every library of a list has the libraries it requires of a request before it. -/
def PrerequisitesFirst (c : Catalog) (request order : List Library) : Prop :=
  ∀ before l after, order = before ++ l :: after →
    ∀ d ∈ c.requires l, d ∈ request → d ∈ before

/-- Every library of a list comes first in the catalog among the libraries of a request that
could follow those before it. -/
def LeastNext (c : Catalog) (request order : List Library) : Prop :=
  ∀ before l after, order = before ++ l :: after →
    ∀ m ∈ request, m ∉ before → (∀ d ∈ c.requires m, d ∈ request → d ∈ before) →
      c.rank l ≤ c.rank m

/-- What holds at each place of a list holds at each place of a longer one, if it holds at the
last. -/
theorem forall_split_concat {P : List Library → Library → Prop} {placed : List Library}
    {l : Library} (h : ∀ before x after, placed = before ++ x :: after → P before x)
    (hl : P placed l) {before after : List Library} {x : Library}
    (heq : placed ++ [l] = before ++ x :: after) : P before x := by
  rcases List.eq_nil_or_concat after with rfl | ⟨rest, last, rfl⟩
  · obtain ⟨rfl, hlx⟩ := List.append_inj' heq rfl
    obtain rfl : l = x := by simpa using hlx
    exact hl
  · have hsplit : placed ++ [l] = (before ++ x :: rest) ++ [last] := by
      rw [heq]
      simp
    obtain ⟨hplaced, -⟩ := List.append_inj' hsplit rfl
    exact h before x rest hplaced

theorem PrerequisitesFirst.concat {placed : List Library} {l : Library}
    (h : PrerequisitesFirst c request placed)
    (hl : ∀ d ∈ c.requires l, d ∈ request → d ∈ placed) :
    PrerequisitesFirst c request (placed ++ [l]) := fun _ _ _ heq =>
  forall_split_concat (P := fun before x => ∀ d ∈ c.requires x, d ∈ request → d ∈ before) h hl heq

theorem LeastNext.concat {placed : List Library} {l : Library} (h : LeastNext c request placed)
    (hl : ∀ m ∈ request, m ∉ placed → (∀ d ∈ c.requires m, d ∈ request → d ∈ placed) →
      c.rank l ≤ c.rank m) : LeastNext c request (placed ++ [l]) := fun _ _ _ heq =>
  forall_split_concat (P := fun before x => ∀ m ∈ request, m ∉ before →
    (∀ d ∈ c.requires m, d ∈ request → d ∈ before) → c.rank x ≤ c.rank m) h hl heq

/-! ## The order of the catalog -/

theorem rank_injective {l m : Library} (hl : l ∈ c.keys) (h : c.rank l = c.rank m) : l = m :=
  (List.idxOf_inj hl).1 h

theorem byRank_perm (c : Catalog) (ls : List Library) : (c.byRank ls).Perm ls :=
  List.mergeSort_perm _ _

theorem mem_byRank {ls : List Library} {l : Library} : l ∈ c.byRank ls ↔ l ∈ ls :=
  (byRank_perm c ls).mem_iff

theorem pairwise_byRank (c : Catalog) (ls : List Library) :
    (c.byRank ls).Pairwise fun l m => c.rank l ≤ c.rank m := by
  let le := fun l m => decide (c.rank l ≤ c.rank m)
  have h : (ls.mergeSort le).Pairwise fun l m => le l m = true := List.pairwise_mergeSort
    (fun _ _ _ hab hbc => by
      simp only [le, decide_eq_true_eq] at hab hbc ⊢
      exact Nat.le_trans hab hbc)
    (fun l m => by
      simp only [le, Bool.or_eq_true, decide_eq_true_eq]
      exact Nat.le_total _ _) ls
  exact h.imp fun hlm => of_decide_eq_true hlm

/-! ## Lists without repetitions -/

theorem nodup_eraseDups {α : Type} [BEq α] [LawfulBEq α] (as : List α) : as.eraseDups.Nodup := by
  induction hn : as.length using Nat.strongRecOn generalizing as with
  | ind n ih =>
    subst hn
    cases as with
    | nil => exact List.nodup_nil
    | cons a as =>
      rw [List.eraseDups_cons, List.nodup_cons]
      refine ⟨fun ha => ?_, ih _ ?_ _ rfl⟩
      · simp [List.mem_eraseDups] at ha
      · exact Nat.lt_succ_of_le (List.length_filter_le _ _)

theorem mem_requested {l d : Library} :
    d ∈ c.requested request l ↔ d ∈ c.requires l ∧ d ∈ request := by
  simp [requested, List.mem_eraseDups]

theorem nodup_requested (c : Catalog) (request : List Library) (l : Library) :
    (c.requested request l).Nodup :=
  (nodup_eraseDups _).filter _

theorem mem_dependents {l d : Library} :
    l ∈ c.dependents request d ↔ l ∈ request ∧ d ∈ c.requires l := by
  simp [dependents, List.mem_eraseDups]

theorem nodup_dependents (c : Catalog) (request : List Library) (d : Library) :
    (c.dependents request d).Nodup :=
  (nodup_eraseDups _).filter _

/-! ## Releasing dependents -/

/-- Releasing several libraries lets each of them wait for one less, and those get ready that
waited for one. -/
theorem foldl_release {ls : List Library} (hnodup : ls.Nodup) (waits : Waits)
    (ready : List Library) :
    ls.foldl release (waits, ready) =
      (fun x => if x ∈ ls then waits x - 1 else waits x, ready ++ ls.filter (waits · = 1)) := by
  induction ls generalizing waits ready with
  | nil => simp
  | cons l ls ih =>
    rw [List.nodup_cons] at hnodup
    have hless : ∀ x ∈ ls, waits.less l x = waits x := fun x hx =>
      if_neg fun hxl : x = l => hnodup.1 (hxl ▸ hx)
    have hself : (waits.less l l = 0) ↔ waits l = 1 := by
      rw [Waits.less, if_pos rfl]
      omega
    rw [List.foldl_cons, release, ih hnodup.2]
    refine Prod.ext (funext fun x => ?_) ?_
    · by_cases hx : x ∈ ls
      · simp [hx, hless x hx]
      · by_cases hxl : x = l
        · subst hxl
          simp [hx, Waits.less]
        · simp [hx, hxl, Waits.less]
    · have hfilter : ls.filter (waits.less l · = 1) = ls.filter (waits · = 1) :=
        List.filter_congr fun x hx => by rw [hless x hx]
      simp only [hfilter, hself, List.filter_cons]
      by_cases hone : waits l = 1
      · simp [hone]
      · simp [hone]

/-! ## The sorting of a request -/

/-- How far the sorting of a request has come: the counters tell what is not placed yet, what
waits for nothing is placed or ready, and what is placed stands where it belongs. -/
structure Sorting (c : Catalog) (request : List Library) (waits : Waits)
    (placed ready : List Library) : Prop where
  nodup : (placed ++ ready).Nodup
  counts : ∀ l ∈ request, waits l = ((c.requested request l).filter (· ∉ placed)).length
  free : ∀ l, l ∈ placed ∨ l ∈ ready ↔ l ∈ request ∧ waits l = 0
  sorted : ready.Pairwise fun l m => c.rank l ≤ c.rank m
  first : PrerequisitesFirst c request placed
  least : LeastNext c request placed

namespace Sorting

variable {waits : Waits} {placed ready rest : List Library} {l : Library}

/-- A library waits for nothing when its prerequisites in the request are placed. -/
theorem waits_eq_zero (h : Sorting c request waits placed ready) (hl : l ∈ request) :
    waits l = 0 ↔ ∀ d ∈ c.requires l, d ∈ request → d ∈ placed := by
  rw [h.counts l hl, Int.natCast_eq_zero, List.length_eq_zero_iff, List.filter_eq_nil_iff]
  simp only [mem_requested, decide_eq_true_eq, not_not, and_imp]

theorem start (c : Catalog) (request : List Library) :
    Sorting c request (fun l => (c.requested request l).length) []
      (c.byRank (request.eraseDups.filter fun l => ((c.requested request l).length : Int) = 0)) where
  nodup := (byRank_perm c _).nodup_iff.2 ((nodup_eraseDups _).filter _)
  counts l _ := by simp
  free l := by simp [mem_byRank, List.mem_eraseDups]
  sorted := pairwise_byRank c _
  first before l after heq := by simp at heq
  least before l after heq := by simp at heq

/-- What placing one more library does to the count of those that a library waits for. -/
theorem count_concat (hl : l ∈ request) (hnew : l ∉ placed) (x : Library) :
    (((c.requested request x).filter (· ∉ placed ++ [l])).length : Int) =
      ((c.requested request x).filter (· ∉ placed)).length -
        if l ∈ c.requires x then 1 else 0 := by
  have hfilter : (c.requested request x).filter (· ∉ placed ++ [l]) =
      ((c.requested request x).filter (· ∉ placed)).erase l := by
    rw [((nodup_requested c request x).filter _).erase_eq_filter, List.filter_filter]
    refine List.filter_congr fun d _ => ?_
    rw [Bool.eq_iff_iff]
    simp [not_or, and_comm]
  have hmem : l ∈ (c.requested request x).filter (· ∉ placed) ↔ l ∈ c.requires x := by
    simp [mem_requested, hl, hnew]
  rw [hfilter]
  split
  · rename_i hreq
    have hin := hmem.2 hreq
    have := List.length_pos_of_mem hin
    rw [List.length_erase_of_mem hin]
    omega
  · rename_i hreq
    rw [List.erase_of_not_mem fun hin => hreq (hmem.1 hin)]
    omega

/-- The first ready library can be placed. -/
theorem place (h : Sorting c request waits placed (l :: rest)) :
    Sorting c request ((c.dependents request l).foldl release (waits, rest)).1 (placed ++ [l])
      (c.byRank ((c.dependents request l).foldl release (waits, rest)).2) := by
  obtain ⟨hl, hzero⟩ := (h.free l).1 (.inr List.mem_cons_self)
  have hnew : l ∉ placed := fun hin =>
    (List.nodup_append.1 h.nodup).2.2 l hin l List.mem_cons_self rfl
  rw [foldl_release (nodup_dependents c request l)]
  have hcounts : ∀ x ∈ request, (if x ∈ c.dependents request l then waits x - 1 else waits x) =
      ((c.requested request x).filter (· ∉ placed ++ [l])).length := fun x hx => by
    rw [count_concat hl hnew, ← h.counts x hx]
    simp only [mem_dependents, hx, true_and]
    split <;> omega
  -- a library that waits for nothing is no dependent of what is placed now
  have hdependent : ∀ x ∈ request, waits x = 0 → x ∉ c.dependents request l := fun x hx hx0 hin => by
    have := hcounts x hx
    rw [if_pos hin] at this
    omega
  have hfree : ∀ x, (x ∈ placed ∨ x ∈ l :: rest) ∨ x ∈ c.dependents request l ∧ waits x = 1 ↔
      x ∈ request ∧ (if x ∈ c.dependents request l then waits x - 1 else waits x) = 0 := by
    intro x
    rw [h.free]
    constructor
    · rintro (⟨hx, hx0⟩ | ⟨hx, hx1⟩)
      · exact ⟨hx, by rw [if_neg (hdependent x hx hx0), hx0]⟩
      · exact ⟨(mem_dependents.1 hx).1, by rw [if_pos hx, hx1]; rfl⟩
    · rintro ⟨hx, hx0⟩
      split at hx0
      · rename_i hin
        exact .inr ⟨hin, by omega⟩
      · exact .inl ⟨hx, hx0⟩
  have hperm := byRank_perm c (rest ++ (c.dependents request l).filter (waits · = 1))
  refine ⟨?_, hcounts, fun x => ?_, pairwise_byRank c _, ?_, ?_⟩
  · refine ((hperm.append_left _).nodup_iff).2 ?_
    rw [List.append_assoc, List.singleton_append, ← List.cons_append, ← List.append_assoc,
      List.nodup_append]
    refine ⟨h.nodup, (nodup_dependents c request l).filter _, fun x hx y hy hxy => ?_⟩
    subst hxy
    obtain ⟨-, hx0⟩ := (h.free x).1 (List.mem_append.1 hx)
    have hx1 := (List.mem_filter.1 hy).2
    simp [hx0] at hx1
  · rw [← hfree x, hperm.mem_iff]
    simp only [List.mem_append, List.mem_cons, List.not_mem_nil, or_false, List.mem_filter,
      decide_eq_true_eq, or_assoc]
  · exact h.first.concat ((h.waits_eq_zero hl).1 hzero)
  · refine h.least.concat fun m hm hmp hready => ?_
    have hm : m ∈ l :: rest :=
      ((h.free m).2 ⟨hm, (h.waits_eq_zero hm).2 hready⟩).resolve_left hmp
    rcases List.mem_cons.1 hm with rfl | hm
    · exact Nat.le_refl _
    · exact (List.pairwise_cons.1 h.sorted).1 m hm

/-- Placing goes on until nothing is ready. -/
theorem place_all (h : Sorting c request waits placed ready) :
    ∃ waits', Sorting c request waits' (c.place request waits placed ready) [] := by
  fun_induction Catalog.place c request waits placed ready with
  | case1 waits placed => exact ⟨waits, h⟩
  | case2 waits placed l rest next ih => exact ih h.place

/-- When nothing is ready, what is not placed waits for something that is not placed. -/
theorem exists_unplaced (h : Sorting c request waits placed []) (hl : l ∈ request)
    (hnew : l ∉ placed) : ∃ d, Needs c request l d ∧ d ∉ placed := by
  have hwaits : waits l ≠ 0 := fun hzero =>
    hnew (((h.free l).2 ⟨hl, hzero⟩).resolve_right List.not_mem_nil)
  rw [ne_eq, h.waits_eq_zero hl] at hwaits
  push Not at hwaits
  obtain ⟨d, hd, hreq, hdp⟩ := hwaits
  exact ⟨d, ⟨hl, hreq, hd⟩, hdp⟩

end Sorting

/-! ## The order of a request -/

/-- Asking for the entries of a request finds one for each of its libraries. -/
theorem entry_of_forIn_ok {l : List Library} {u : PUnit}
    (h : (forIn l PUnit.unit fun x _ => do
      let _ ← c.entry x
      pure (ForInStep.yield PUnit.unit) : Except Cause PUnit) = .ok u) :
    ∀ x ∈ l, ∃ e, c.find? x = some e := by
  induction l with
  | nil => intro x hx; cases hx
  | cons y l ih =>
    rw [List.forIn_cons] at h
    cases hy : c.entry y with
    | error cause => rw [hy] at h; cases h
    | ok e =>
      rw [hy] at h
      intro x hx
      rcases List.mem_cons.1 hx with rfl | hx
      · unfold entry at hy
        split at hy
        · rename_i e' he'
          exact ⟨e', he'⟩
        · cases hy
      · exact ih h x hx

/-- The libraries that the sorting of a request places. -/
def placedOf (c : Catalog) (request : List Library) : List Library :=
  c.place request (fun l => (c.requested request l).length) []
    (c.byRank (request.eraseDups.filter fun l => ((c.requested request l).length : Int) = 0))

theorem placedOf_sorting (c : Catalog) (request : List Library) :
    ∃ waits, Sorting c request waits (c.placedOf request) [] :=
  (Sorting.start c request).place_all

theorem mem_of_mem_placedOf {l : Library} (hl : l ∈ c.placedOf request) : l ∈ request := by
  obtain ⟨waits, h⟩ := placedOf_sorting c request
  exact ((h.free l).1 (.inl hl)).1

/-- The number of libraries placed tells whether all of a request are. -/
theorem length_placedOf_iff : (c.placedOf request).length = request.eraseDups.length ↔
    ∀ l ∈ request, l ∈ c.placedOf request := by
  obtain ⟨waits, h⟩ := placedOf_sorting c request
  have hnodup := (List.nodup_append.1 h.nodup).1
  have hsub : c.placedOf request ⊆ request.eraseDups := fun l hl =>
    List.mem_eraseDups.2 (mem_of_mem_placedOf hl)
  constructor
  · intro hlength l hl
    have hperm := (List.subperm_of_subset hnodup hsub).perm_of_length_le (Nat.le_of_eq hlength.symm)
    exact hperm.mem_iff.2 (List.mem_eraseDups.2 hl)
  · intro hall
    refine Nat.le_antisymm (List.subperm_of_subset hnodup hsub).length_le ?_
    exact (List.subperm_of_subset (nodup_eraseDups request) fun l hl =>
      hall l (List.mem_eraseDups.1 hl)).length_le

/-- When all of a request are in the catalog, its order is what is placed, and what is not placed
is reported. -/
theorem order_eq (hin : ∀ l ∈ request, c.contains l = true) :
    c.order request = if ∀ l ∈ request, l ∈ c.placedOf request then .ok (c.placedOf request)
      else .error (.prerequisiteCycle
        (c.byRank (request.eraseDups.filter (· ∉ c.placedOf request)))) := by
  have hentries : (forIn request PUnit.unit fun x _ => do
      let _ ← c.entry x
      pure (ForInStep.yield PUnit.unit) : Except Cause PUnit) = .ok PUnit.unit := by
    induction request with
    | nil => rfl
    | cons l rest ih =>
      obtain ⟨e, he⟩ := Option.isSome_iff_exists.1 (hin l List.mem_cons_self)
      have hentry : c.entry l = .ok e := by rw [entry, he]
      rw [List.forIn_cons, hentry]
      exact ih fun x hx => hin x (List.mem_cons_of_mem l hx)
  rw [← if_congr length_placedOf_iff rfl rfl]
  unfold order
  rw [hentries]
  show (if (c.placedOf request).length = request.eraseDups.length then _ else _) = _
  split <;> rfl

/-- An order holds each library of its request once, all of them in the catalog, and each
after its requested prerequisites. -/
theorem order_spec {order : List Library} (h : c.order request = .ok order) :
    order.Nodup ∧ (∀ l, l ∈ order ↔ l ∈ request) ∧ (∀ l ∈ request, ∃ e, c.find? l = some e) ∧
      PrerequisitesFirst c request order := by
  obtain ⟨u, hall, -⟩ := Effect.except_bind_ok h
  have hentries := entry_of_forIn_ok hall
  rw [order_eq fun l hl => Option.isSome_iff_exists.2 (hentries l hl)] at h
  split at h
  · rename_i hplaced
    obtain rfl := Except.ok.inj h
    obtain ⟨waits, hsorting⟩ := placedOf_sorting c request
    exact ⟨(List.nodup_append.1 hsorting.nodup).1,
      fun l => ⟨mem_of_mem_placedOf, hplaced l⟩, hentries, hsorting.first⟩
  · cases h

end Sysroot.Catalog

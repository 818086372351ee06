import Sysroot.Proofs.Catalog.Order

/-!
# The search for a cycle

The search goes down from a library along its prerequisites and keeps two lists: the way that it
came, and the libraries that lead to no cycle, which are closed under prerequisites and of which
none is on the way (`Searched`).  When it comes to a library on its way, what it found is a cycle
(`IsCycle`); otherwise each library it comes back from leads to none.  So it finds a cycle exactly
when there is one (`cycle?_eq_none_iff`).
-/

namespace Sysroot.Catalog

variable {c : Catalog} {path done ls : List Library} {l d : Library}

/-! ## Cycles as lists -/

/-- Whether a list goes round a cycle: each library has the next one as prerequisite, the last is
the first again, and no other occurs twice. -/
def IsCycle (c : Catalog) (cycle : List Library) : Prop :=
  ∃ l rest, cycle = l :: rest ++ [l] ∧ (l :: rest).Nodup ∧ List.IsChain (Needs c c.keys) cycle

/-- A chain leads from its first library to its last. -/
theorem transGen_of_isChain {r : Library → Library → Prop} {rest : List Library}
    (h : List.IsChain r (l :: rest ++ [d])) : Relation.TransGen r l d := by
  induction rest generalizing l with
  | nil => exact .single (List.isChain_pair.1 h)
  | cons m rest ih =>
    obtain ⟨hlm, hrest⟩ := List.isChain_cons_cons.1 h
    exact .head hlm (ih hrest)

theorem IsCycle.transGen {cycle : List Library} (h : IsCycle c cycle) :
    ∃ l, Relation.TransGen (Needs c c.keys) l l := by
  obtain ⟨l, rest, rfl, -, hchain⟩ := h
  exact ⟨l, transGen_of_isChain hchain⟩

/-- A way along prerequisites to a library; it goes through no library twice before. -/
structure Way (c : Catalog) (path : List Library) (l : Library) : Prop where
  nodup : path.Nodup
  chain : List.IsChain (Needs c c.keys) (path ++ [l])
  mem : l ∈ c.keys

/-- A way goes on to a prerequisite. -/
theorem Way.step (h : Way c path l) (hnew : l ∉ path) (hd : Needs c c.keys l d) :
    Way c (path ++ [l]) d where
  nodup := by
    refine List.nodup_append.2 ⟨h.nodup, List.nodup_singleton l, fun x hx y hy hxy => hnew ?_⟩
    rw [← List.mem_singleton.1 hy, ← hxy]
    exact hx
  chain := by
    refine List.isChain_append.2 ⟨h.chain, List.isChain_singleton d, fun x hx y hy => ?_⟩
    obtain rfl : l = x := by simpa using hx
    obtain rfl : d = y := by simpa using hy
    exact hd
  mem := hd.2.1

/-- A way that comes to a library on it ends in a cycle. -/
theorem Way.isCycle (h : Way c path l) (hl : l ∈ path) :
    IsCycle c (path.dropWhile (· ≠ l) ++ [l]) := by
  obtain ⟨hnodup, hchain, -⟩ := h
  obtain ⟨before, rest, rfl⟩ := List.append_of_mem hl
  rw [List.nodup_append] at hnodup
  have hbefore : ∀ x ∈ before, decide (x ≠ l) = true := fun x hx =>
    decide_eq_true (hnodup.2.2 x hx l List.mem_cons_self)
  have hdrop : (before ++ l :: rest).dropWhile (· ≠ l) = l :: rest := by
    rw [List.dropWhile_append_of_pos hbefore, List.dropWhile_cons_of_neg (by simp)]
  rw [hdrop]
  refine ⟨l, rest, rfl, hnodup.2.1, ?_⟩
  rw [List.append_assoc] at hchain
  exact hchain.right_of_append

/-! ## What a search keeps -/

/-- Libraries that lead to no cycle: their prerequisites are among them, and none of them is on
the way of the search. -/
structure Searched (c : Catalog) (path done : List Library) : Prop where
  closed : ∀ l d, l ∈ done → Needs c c.keys l d → d ∈ done
  acyclic : ∀ l ∈ done, ¬ Relation.TransGen (Needs c c.keys) l l
  apart : ∀ l ∈ path, l ∉ done

/-- What a search from some libraries finds: a cycle, or that they lead to none. -/
def Finds (c : Catalog) (path done ls : List Library) :
    Except (List Library) (List Library) → Prop
  | .error cycle => IsCycle c cycle
  | .ok done' => (∀ l ∈ done, l ∈ done') ∧ (∀ l ∈ ls, l ∈ done') ∧ Searched c path done'

/-- A library whose prerequisites lead to no cycle leads to none either. -/
theorem Searched.concat (h : Searched c (path ++ [l]) done)
    (hl : ∀ d, Needs c c.keys l d → d ∈ done) (hpath : l ∉ path) :
    Searched c path (done ++ [l]) := by
  have hnew : l ∉ done := h.apart l (by simp)
  constructor
  · intro x d hx hd
    rcases List.mem_append.1 hx with hx | hx
    · exact List.mem_append_left _ (h.closed x d hx hd)
    · rw [List.mem_singleton.1 hx] at hd
      exact List.mem_append_left _ (hl d hd)
  · intro x hx hcycle
    rcases List.mem_append.1 hx with hx | hx
    · exact h.acyclic x hx hcycle
    · rw [List.mem_singleton.1 hx] at hcycle
      -- a cycle through `l` would go through `done`, and so `l` would be there
      obtain ⟨d, hd, hback⟩ := Relation.TransGen.head'_iff.1 hcycle
      exact hnew (mem_of_reflTransGen h.closed hback (hl d hd))
  · intro x hx hin
    rcases List.mem_append.1 hin with hin | hin
    · exact h.apart x (List.mem_append_left _ hx) hin
    · exact hpath (List.mem_singleton.1 hin ▸ hx)

/-- Searching from one library after another finds what searching from each does. -/
theorem searchEach_finds
    (hfrom : ∀ l done, Way c path l → Searched c path done →
      Finds c path done [l] (c.searchFrom path done l)) (ls : List Library) :
    ∀ done, (∀ l ∈ ls, Way c path l) → Searched c path done →
      Finds c path done ls (c.searchEach path done ls) := by
  induction ls with
  | nil =>
    intro done _ hdone
    rw [searchEach]
    exact ⟨fun _ hl => hl, by simp, hdone⟩
  | cons l rest ih =>
    intro done hway hdone
    have hl := hfrom l done (hway l List.mem_cons_self) hdone
    rw [searchEach]
    cases hsearch : c.searchFrom path done l with
    | error cycle =>
      rw [hsearch] at hl
      exact hl
    | ok done' =>
      rw [hsearch] at hl
      obtain ⟨hkept, hin, hdone'⟩ := hl
      have hrest := ih done' (fun x hx => hway x (List.mem_cons_of_mem l hx)) hdone'
      show Finds c path done (l :: rest) (c.searchEach path done' rest)
      cases hend : c.searchEach path done' rest with
      | error cycle =>
        rw [hend] at hrest
        exact hrest
      | ok done'' =>
        rw [hend] at hrest
        obtain ⟨hkept', hin', hdone''⟩ := hrest
        refine ⟨fun x hx => hkept' x (hkept x hx), fun x hx => ?_, hdone''⟩
        rcases List.mem_cons.1 hx with rfl | hx
        · exact hkept' x (hin x List.mem_cons_self)
        · exact hin' x hx

/-- Searching from the library at the end of a way finds a cycle, or that the library leads to
none. -/
theorem searchFrom_finds (path : List Library) : ∀ l done, Way c path l → Searched c path done →
    Finds c path done [l] (c.searchFrom path done l) := by
  -- each step down lengthens the way, which goes through no library twice
  induction hn : lacking path using Nat.strongRecOn generalizing path with
  | ind n ih =>
    subst hn
    intro l done hway hdone
    rw [searchFrom]
    by_cases hin : l ∈ done
    · rw [if_pos hin]
      exact ⟨fun _ hx => hx, fun x hx => List.mem_singleton.1 hx ▸ hin, hdone⟩
    rw [if_neg hin]
    by_cases hl : l ∈ path
    · rw [dif_pos hl]
      exact hway.isCycle hl
    rw [dif_neg hl]
    have hneeds : ∀ d, d ∈ (c.requires l).filter c.contains ↔ Needs c c.keys l d := fun d => by
      rw [List.mem_filter, Needs, OrderedMap.contains, ← OrderedMap.mem_keys_iff]
      exact ⟨fun h => ⟨hway.mem, h.2, h.1⟩, fun h => ⟨h.2.2, h.2.1⟩⟩
    have hapart : ∀ x ∈ path ++ [l], x ∉ done := fun x hx => by
      rcases List.mem_append.1 hx with hx | hx
      · exact hdone.apart x hx
      · exact List.mem_singleton.1 hx ▸ hin
    have hdown := searchEach_finds (ih _ (lacking_append_lt hl) (path ++ [l]) rfl)
      ((c.requires l).filter c.contains) done (fun d hd => hway.step hl ((hneeds d).1 hd))
      ⟨hdone.closed, hdone.acyclic, hapart⟩
    show Finds c path done [l] (match c.searchEach (path ++ [l]) done
      ((c.requires l).filter c.contains) with
      | .error cycle => .error cycle
      | .ok done => .ok (done ++ [l]))
    cases hsearch : c.searchEach (path ++ [l]) done ((c.requires l).filter c.contains) with
    | error cycle =>
      rw [hsearch] at hdown
      exact hdown
    | ok done' =>
      rw [hsearch] at hdown
      obtain ⟨hkept, hall, hdone'⟩ := hdown
      refine ⟨fun x hx => List.mem_append_left _ (hkept x hx), fun x hx => ?_,
        hdone'.concat (fun d hd => hall d ((hneeds d).2 hd)) hl⟩
      exact List.mem_append_right _ hx

/-! ## The search from every library -/

theorem searchKeys_finds (c : Catalog) : Finds c [] [] c.keys (c.searchEach [] [] c.keys) :=
  searchEach_finds (searchFrom_finds []) c.keys []
    (fun l hl => ⟨List.nodup_nil, List.isChain_singleton l, hl⟩) ⟨by simp, by simp, by simp⟩

/-- What is found is a cycle. -/
theorem isCycle_of_cycle? {cycle : List Library} (h : c.cycle? = some cycle) : IsCycle c cycle := by
  have hfinds := searchKeys_finds c
  unfold cycle? at h
  cases hsearch : c.searchEach [] [] c.keys with
  | error found =>
    rw [hsearch] at h hfinds
    exact Option.some.inj h ▸ hfinds
  | ok done =>
    rw [hsearch] at h
    cases h

/-- A cycle is found exactly when there is one. -/
theorem cycle?_eq_none_iff :
    c.cycle? = none ↔ ∀ l, ¬ Relation.TransGen (Needs c c.keys) l l := by
  constructor
  · intro h l hl
    have hfinds := searchKeys_finds c
    unfold cycle? at h
    cases hsearch : c.searchEach [] [] c.keys with
    | error found =>
      rw [hsearch] at h
      cases h
    | ok done =>
      rw [hsearch] at hfinds
      obtain ⟨-, hall, hdone⟩ := hfinds
      obtain ⟨d, hd, -⟩ := Relation.TransGen.head'_iff.1 hl
      exact hdone.acyclic l (hall l hd.1) hl
  · intro h
    cases hc : c.cycle? with
    | none => rfl
    | some cycle =>
      obtain ⟨l, hl⟩ := (isCycle_of_cycle? hc).transGen
      exact absurd hl (h l)

/-- A cycle has two libraries or more and ends where it starts; no other library occurs twice, and
each requires the next. -/
theorem IsCycle.closed {cycle : List Library} (h : IsCycle c cycle) :
    2 ≤ cycle.length ∧ cycle.head? = cycle.getLast? ∧ cycle.dropLast.Nodup ∧ cycle.tail.Nodup := by
  obtain ⟨l, rest, rfl, hnodup, -⟩ := h
  refine ⟨by simp, ?_, ?_, ?_⟩
  · rw [List.getLast?_concat, List.cons_append, List.head?_cons]
  · rwa [List.dropLast_concat]
  · rw [List.cons_append, List.tail_cons, ← List.perm_append_comm.nodup_iff]
    exact hnodup

/-- For every catalog the search ends, and it finds nothing exactly when the prerequisites between
members go round no cycle.  What it finds is a cycle of members: of two libraries or more, the last
being the first again, with no other twice, and each with the next among its prerequisites. -/
theorem cycle?_finds_cycle (c : Catalog) :
    (c.cycle? = none ↔ ∀ l, ¬ Relation.TransGen (Needs c c.keys) l l) ∧
    ∀ cycle, c.cycle? = some cycle →
      2 ≤ cycle.length ∧ cycle.head? = cycle.getLast? ∧ cycle.dropLast.Nodup ∧ cycle.tail.Nodup ∧
      List.IsChain (fun l d => l ∈ c.keys ∧ d ∈ c.keys ∧ d ∈ c.requires l) cycle := by
  refine ⟨cycle?_eq_none_iff, fun cycle hcycle => ?_⟩
  have his := isCycle_of_cycle? hcycle
  obtain ⟨hlength, hends, hnodup, htail⟩ := his.closed
  obtain ⟨-, -, -, -, hchain⟩ := his
  exact ⟨hlength, hends, hnodup, htail, hchain⟩

end Sysroot.Catalog

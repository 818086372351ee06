import Sysroot.Catalog.Basic

/-!
# Build orders

Three questions about the prerequisites in a catalog: what a request needs besides what
it names, in which order to build it, and whether some library needs itself.

## The order

Each library of a request waits for its prerequisites in the request, each counted once; a
prerequisite outside of the request constrains nothing.  Those that wait for none are ready.
The first ready library of the catalog is placed next; then its dependents wait for one less,
and those that now wait for none are ready too.  When none is ready and some are left, those
are the libraries on a cycle or behind one.

A library is released at most as often as it waits, so what is waited for and what is ready
get less in sum with each placing.
-/

namespace Sysroot.Catalog

/-! ## Prerequisites -/

/-- How many libraries a list lacks: what bounds every traversal of a catalog. -/
def lacking (seen : List Library) : Nat :=
  (Library.all.filter (· ∉ seen)).length

theorem lacking_append_lt {seen : List Library} {l : Library} (h : l ∉ seen) :
    lacking (seen ++ [l]) < lacking seen := by
  have hsub : (Library.all.filter (· ∉ seen ++ [l])) =
      (Library.all.filter (· ∉ seen)).filter (· ≠ l) := by
    rw [List.filter_filter]
    congr 1
    funext x
    simp [and_comm]
  have hmem : l ∈ Library.all.filter (· ∉ seen) :=
    List.mem_filter.2 ⟨Library.mem_all l, by simpa using h⟩
  rw [lacking, lacking, hsub]
  exact List.length_filter_lt_length_iff_exists.2 ⟨l, hmem, by simp⟩

/-- Adds to the libraries seen those on the stack and their prerequisites, the top of the
stack first. -/
def closureFrom (c : Catalog) (seen : List Library) : List Library → Except Cause (List Library)
  | [] => .ok seen
  | l :: stack =>
      if h : l ∈ seen then closureFrom c seen stack
      else
        have := lacking_append_lt h
        match c.entry l with
        | .error cause => .error cause
        | .ok e => closureFrom c (seen ++ [l]) (e.requires.reverse ++ stack)
termination_by stack => (lacking seen, stack.length)

/-- The libraries of a request with all their prerequisites, in the order in which they are
met: the last library of the request first, and of its prerequisites the last one first. -/
def closure (c : Catalog) (request : List Library) : Except Cause (List Library) :=
  closureFrom c [] request.reverse

/-! ## The order -/

/-- What is left is shorter once a library that was found in it is taken out. -/
theorem length_erase_lt_of_find? {f : Library → Bool} {left : List Library} {l : Library}
    (h : left.find? f = some l) : (left.erase l).length < left.length := by
  have hl := List.mem_of_find?_eq_some h
  rw [List.length_erase_of_mem hl]
  have := List.length_pos_of_mem hl
  omega

/-- The place of a library in the catalog. -/
def rank (c : Catalog) (l : Library) : Nat := c.keys.idxOf l

/-- Libraries in the order of the catalog. -/
def byRank (c : Catalog) (ls : List Library) : List Library :=
  ls.mergeSort fun l m => decide (c.rank l ≤ c.rank m)

/-- The prerequisites that a library has in a request, each once. -/
def requested (c : Catalog) (request : List Library) (l : Library) : List Library :=
  (c.requires l).eraseDups.filter (· ∈ request)

/-- The libraries of a request that have a library as prerequisite, each once. -/
def dependents (c : Catalog) (request : List Library) (d : Library) : List Library :=
  request.eraseDups.filter fun l => d ∈ c.requires l

/-- How many requested prerequisites each library still waits for. -/
abbrev Waits := Library → Int

/-- How many prerequisites some libraries wait for in all. -/
def Waits.total (waits : Waits) : List Library → Nat
  | [] => 0
  | l :: ls => (waits l).toNat + total waits ls

theorem Waits.total_le {waits waits' : Waits} (h : ∀ l, (waits' l).toNat ≤ (waits l).toNat)
    (ls : List Library) : waits'.total ls ≤ waits.total ls := by
  induction ls with
  | nil => exact Nat.le_refl _
  | cons l ls ih => exact Nat.add_le_add (h l) ih

theorem Waits.total_lt {waits waits' : Waits} (h : ∀ l, (waits' l).toNat ≤ (waits l).toNat)
    {l : Library} (hl : (waits' l).toNat < (waits l).toNat) {ls : List Library} (hmem : l ∈ ls) :
    waits'.total ls < waits.total ls := by
  induction ls with
  | nil => cases hmem
  | cons x ls ih =>
      rcases List.mem_cons.1 hmem with rfl | hmem
      · exact Nat.add_lt_add_of_lt_of_le hl (total_le h ls)
      · exact Nat.add_lt_add_of_le_of_lt (h x) (ih hmem)

/-- How many prerequisites are waited for in all. -/
def outstanding (waits : Waits) : Nat := waits.total Library.all

/-- The counts when a library waits for one less. -/
def Waits.less (waits : Waits) (l : Library) : Waits := fun x =>
  if x = l then waits x - 1 else waits x

/-- What follows for a dependent of a library that was placed: it waits for one less, and is
ready when that was the last one. -/
def release (s : Waits × List Library) (l : Library) : Waits × List Library :=
  let waits := s.1.less l
  (waits, if waits l = 0 then s.2 ++ [l] else s.2)

theorem outstanding_release_le (s : Waits × List Library) (l : Library) :
    outstanding (release s l).1 + (release s l).2.length ≤ outstanding s.1 + s.2.length := by
  have hle : ∀ x, (s.1.less l x).toNat ≤ (s.1 x).toNat := fun x => by
    simp only [Waits.less]
    split <;> omega
  have hself : s.1.less l l = s.1 l - 1 := if_pos rfl
  simp only [release]
  split
  · -- a library that gets ready was waited for until now
    have hlt : outstanding (s.1.less l) < outstanding s.1 :=
      Waits.total_lt hle (l := l) (by omega) (Library.mem_all l)
    rw [List.length_append, List.length_singleton]
    omega
  · exact Nat.add_le_add_right (Waits.total_le hle _) _

theorem outstanding_foldl_release_le (ls : List Library) (s : Waits × List Library) :
    outstanding (ls.foldl release s).1 + (ls.foldl release s).2.length ≤
      outstanding s.1 + s.2.length := by
  induction ls generalizing s with
  | nil => exact Nat.le_refl _
  | cons l ls ih => exact Nat.le_trans (ih (release s l)) (outstanding_release_le s l)

/-- Places the ready libraries after those that are placed, the first one of the catalog next,
and with each one those that get ready by it. -/
def place (c : Catalog) (request : List Library) (waits : Waits) (placed : List Library) :
    List Library → List Library
  | [] => placed
  | l :: rest =>
      let next := (c.dependents request l).foldl release (waits, rest)
      place c request next.1 (placed ++ [l]) (c.byRank next.2)
termination_by ready => outstanding waits + ready.length
decreasing_by
  have := outstanding_foldl_release_le (c.dependents request l) (waits, rest)
  simp only [byRank, List.length_mergeSort, List.length_cons] at this ⊢
  omega

/-- The libraries of a request in build order. -/
def order (c : Catalog) (request : List Library) : Except Cause (List Library) := do
  for l in request do
    let _ ← c.entry l
  let libraries := request.eraseDups
  let waits : Waits := fun l => (c.requested request l).length
  let ready := c.byRank (libraries.filter (waits · = 0))
  let placed := c.place request waits [] ready
  if placed.length = libraries.length then return placed
  else throw (.prerequisiteCycle (c.byRank (libraries.filter (· ∉ placed))))

/-! ## Cycles -/

mutual

/-- Searches for a cycle from a library, `path` being the libraries that led to it and
`done` those that lead to no cycle.  An error is a cycle, its first library repeated at the
end; otherwise the result is `done` with the libraries that were searched. -/
def searchFrom (c : Catalog) (path done : List Library) (l : Library) :
    Except (List Library) (List Library) :=
  if l ∈ done then .ok done
  else if h : l ∈ path then .error (path.dropWhile (· ≠ l) ++ [l])
  else
    have := lacking_append_lt h
    match searchEach c (path ++ [l]) done ((c.requires l).filter c.contains) with
    | .error cycle => .error cycle
    | .ok done => .ok (done ++ [l])
termination_by (lacking path, 0)

/-- Searches from one library after another. -/
def searchEach (c : Catalog) (path done : List Library) :
    List Library → Except (List Library) (List Library)
  | [] => .ok done
  | l :: r =>
      match searchFrom c path done l with
      | .error cycle => .error cycle
      | .ok done => searchEach c path done r
termination_by r => (lacking path, r.length + 1)

end

/-- A cycle of prerequisites, its first library repeated at the end, if there is one. -/
def cycle? (c : Catalog) : Option (List Library) :=
  match searchEach c [] [] c.keys with
  | .error cycle => some cycle
  | .ok _ => none

/-! ## Soundness of a catalog -/

/-- What is wrong with an entry by itself, and with its references. -/
def Entry.check (c : Catalog) (l : Library) (e : Entry) : Except Cause Unit := do
  if e.archive = none ∧ e.recipe ≠ some .headers then throw (.noArchiveNamed l)
  for d in e.requires ++ e.headerRequires do
    if !c.contains d then throw (.danglingReference l d)
  for d in e.embedObjects do
    if d ∉ e.requires then throw (.embedsUnrequired l d)

/-- Refuses a catalog in which some request could not be planned. -/
def check (c : Catalog) : Except Cause Unit := do
  for (l, e) in c.pairs do
    e.check c l
  match c.cycle? with
  | some cycle => throw (.prerequisiteCycle cycle)
  | none => return

end Sysroot.Catalog

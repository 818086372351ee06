import Sysroot.Proofs.Catalog.Prerequisites

/-!
# Requests with all their prerequisites

The search for prerequisites keeps a list of what it has seen and a stack of what is to be seen;
the prerequisites of what it has seen are among the two.  When the stack is empty, what it has seen
is the least set that holds the request and the prerequisites of its members
(`closureFrom_ok`), and it stops early only at a library that is not in the catalog
(`closureFrom_error`).
-/

namespace Sysroot.Catalog

variable {c : Catalog} {request seen stack s : List Library} {l : Library}

/-- Whether prerequisites lead from a request to a library. -/
def Reaches (c : Catalog) (request : List Library) (l : Library) : Prop :=
  ∃ r ∈ request, Relation.ReflTransGen (Requires c) r l

/-- Whether a list holds the members of the least set that holds a request and the prerequisites
of its members, each once. -/
structure IsClosure (c : Catalog) (request s : List Library) : Prop where
  nodup : s.Nodup
  mem_of_request : ∀ l ∈ request, l ∈ s
  closed : ∀ l ∈ s, ∀ d ∈ c.requires l, d ∈ s
  least : ∀ P : Library → Prop, (∀ l ∈ request, P l) → (∀ l, P l → ∀ d ∈ c.requires l, P d) →
    ∀ l ∈ s, P l

/-- The least set that holds a request and the prerequisites of its members is what the request
reaches. -/
theorem isClosure_iff : IsClosure c request s ↔ s.Nodup ∧ ∀ l, l ∈ s ↔ Reaches c request l := by
  constructor
  · intro h
    refine ⟨h.nodup, fun l => ⟨?_, ?_⟩⟩
    · refine h.least (Reaches c request) (fun r hr => ⟨r, hr, .refl⟩) ?_ l
      rintro x ⟨r, hr, hx⟩ d hd
      exact ⟨r, hr, hx.tail hd⟩
    · rintro ⟨r, hr, hl⟩
      exact mem_of_reflTransGen (fun x y hx hxy => h.closed x hx y hxy) hl (h.mem_of_request r hr)
  · rintro ⟨hnodup, hmem⟩
    refine ⟨hnodup, fun l hl => (hmem l).2 ⟨l, hl, .refl⟩, fun l hl d hd => ?_, ?_⟩
    · obtain ⟨r, hr, hrl⟩ := (hmem l).1 hl
      exact (hmem d).2 ⟨r, hr, hrl.tail hd⟩
    · intro P hP hstep l hl
      obtain ⟨r, hr, hrl⟩ := (hmem l).1 hl
      exact mem_of_reflTransGen (fun x y hx hxy => hstep x hx y hxy) hrl (hP r hr)

/-! ## Entries -/

theorem entry_eq_ok_iff {e : Entry} : c.entry l = .ok e ↔ c.find? l = some e := by
  unfold entry
  cases c.find? l with
  | none => simp
  | some e' => simp

theorem requires_of_find? {e : Entry} (h : c.find? l = some e) : c.requires l = e.requires := by
  rw [requires, h]
  rfl

/-- Only a library in the catalog has prerequisites. -/
theorem exists_entry_of_requires {d : Library} (h : d ∈ c.requires l) :
    ∃ e, c.find? l = some e ∧ d ∈ e.requires := by
  cases hfind : c.find? l with
  | none =>
    rw [requires, hfind] at h
    cases h
  | some e => exact ⟨e, rfl, requires_of_find? hfind ▸ h⟩

/-- A library is asked for and not there exactly when the catalog lacks it. -/
theorem entry_error {cause : Cause} (h : c.entry l = .error cause) :
    cause = .notInCatalog l ∧ c.contains l = false := by
  unfold entry at h
  rw [OrderedMap.contains]
  cases hfind : c.find? l with
  | none =>
    rw [hfind] at h
    exact ⟨(Except.error.inj h).symm, rfl⟩
  | some e =>
    rw [hfind] at h
    cases h

/-! ## The search -/

/-- What is reached once the library on top of a stack is replaced by its prerequisites was reached
before. -/
theorem reaches_cons {x : Library} (h : Reaches c ((c.requires l).reverse ++ stack) x) :
    Reaches c (l :: stack) x := by
  obtain ⟨r, hr, hx⟩ := h
  rcases List.mem_append.1 hr with hr | hr
  · exact ⟨l, List.mem_cons_self, hx.head (List.mem_reverse.1 hr)⟩
  · exact ⟨r, List.mem_cons_of_mem l hr, hx⟩

theorem Reaches.cons {x : Library} (h : Reaches c stack x) : Reaches c (l :: stack) x := by
  obtain ⟨r, hr, hx⟩ := h
  exact ⟨r, List.mem_cons_of_mem l hr, hx⟩

/-- When the search ends, what it has seen is in the catalog, holds the stack and the prerequisites
of its members, and was seen before or is reached from the stack. -/
theorem closureFrom_ok (hnodup : seen.Nodup)
    (hseen : ∀ l ∈ seen, ∀ d ∈ c.requires l, d ∈ seen ∨ d ∈ stack)
    (h : c.closureFrom seen stack = .ok s) :
    s.Nodup ∧ (∀ l, l ∈ seen ∨ l ∈ stack → l ∈ s) ∧ (∀ l ∈ s, ∀ d ∈ c.requires l, d ∈ s) ∧
      ∀ l ∈ s, l ∈ seen ∨ (Reaches c stack l ∧ c.contains l = true) := by
  fun_induction closureFrom c seen stack with
  | case1 seen =>
    obtain rfl := Except.ok.inj h
    refine ⟨hnodup, fun l hl => hl.resolve_right List.not_mem_nil, fun l hl d hd => ?_,
      fun l hl => .inl hl⟩
    exact (hseen l hl d hd).resolve_right List.not_mem_nil
  | case2 seen l stack hl ih =>
    have hkept : ∀ x ∈ seen, ∀ d ∈ c.requires x, d ∈ seen ∨ d ∈ stack := fun x hx d hd => by
      rcases hseen x hx d hd with hd | hd
      · exact .inl hd
      · rcases List.mem_cons.1 hd with rfl | hd
        · exact .inl hl
        · exact .inr hd
    obtain ⟨hs, hall, hclosed, hreached⟩ := ih hnodup hkept h
    refine ⟨hs, fun x hx => ?_, hclosed, fun x hx => ?_⟩
    · rcases hx with hx | hx
      · exact hall x (.inl hx)
      · rcases List.mem_cons.1 hx with rfl | hx
        · exact hall x (.inl hl)
        · exact hall x (.inr hx)
    · exact (hreached x hx).imp_right fun h => ⟨h.1.cons, h.2⟩
  | case3 => cases h
  | case4 seen l stack hl _ e he ih =>
    have hfind := entry_eq_ok_iff.1 he
    have hreq := requires_of_find? hfind
    have hnodup' : (seen ++ [l]).Nodup := by
      refine List.nodup_append.2 ⟨hnodup, List.nodup_singleton l, fun x hx y hy hxy => hl ?_⟩
      rw [← List.mem_singleton.1 hy, ← hxy]
      exact hx
    have hkept : ∀ x ∈ seen ++ [l], ∀ d ∈ c.requires x,
        d ∈ seen ++ [l] ∨ d ∈ e.requires.reverse ++ stack := fun x hx d hd => by
      rcases List.mem_append.1 hx with hx | hx
      · rcases hseen x hx d hd with hd | hd
        · exact .inl (List.mem_append_left _ hd)
        · rcases List.mem_cons.1 hd with rfl | hd
          · exact .inl (by simp)
          · exact .inr (List.mem_append_right _ hd)
      · rw [List.mem_singleton.1 hx, hreq] at hd
        exact .inr (List.mem_append_left _ (List.mem_reverse.2 hd))
    obtain ⟨hs, hall, hclosed, hreached⟩ := ih hnodup' hkept h
    refine ⟨hs, fun x hx => ?_, hclosed, fun x hx => ?_⟩
    · rcases hx with hx | hx
      · exact hall x (.inl (List.mem_append_left _ hx))
      · rcases List.mem_cons.1 hx with rfl | hx
        · exact hall x (.inl (by simp))
        · exact hall x (.inr (List.mem_append_right _ hx))
    · rcases hreached x hx with hx | ⟨hx, hin⟩
      · rcases List.mem_append.1 hx with hx | hx
        · exact .inl hx
        · rw [List.mem_singleton.1 hx, OrderedMap.contains, hfind]
          exact .inr ⟨⟨l, List.mem_cons_self, .refl⟩, rfl⟩
      · exact .inr ⟨reaches_cons (hreq ▸ hx), hin⟩

/-- The search stops early only at a library that it was to see and that the catalog lacks. -/
theorem closureFrom_error {cause : Cause} (h : c.closureFrom seen stack = .error cause) :
    ∃ l, cause = .notInCatalog l ∧ Reaches c stack l ∧ c.contains l = false := by
  fun_induction closureFrom c seen stack with
  | case1 => cases h
  | case2 seen l stack hl ih =>
    obtain ⟨x, hcause, hx, hout⟩ := ih h
    exact ⟨x, hcause, hx.cons, hout⟩
  | case3 seen l stack hl _ cause' he =>
    obtain rfl : cause' = cause := Except.error.inj h
    obtain ⟨rfl, hout⟩ := entry_error he
    exact ⟨l, rfl, ⟨l, List.mem_cons_self, .refl⟩, hout⟩
  | case4 seen l stack hl _ e he ih =>
    obtain ⟨x, hcause, hx, hout⟩ := ih h
    rw [← requires_of_find? (entry_eq_ok_iff.1 he)] at hx
    exact ⟨x, hcause, reaches_cons hx, hout⟩

/-! ## The closure of a request -/

theorem reaches_reverse {x : Library} : Reaches c request.reverse x ↔ Reaches c request x := by
  simp only [Reaches, List.mem_reverse]

/-- What a closure is, and that all of it is in the catalog. -/
theorem closure_ok (h : c.closure request = .ok s) :
    IsClosure c request s ∧ ∀ l ∈ s, c.contains l = true := by
  obtain ⟨hnodup, hall, hclosed, hreached⟩ := closureFrom_ok List.nodup_nil nofun h
  refine ⟨isClosure_iff.2 ⟨hnodup, fun l => ⟨fun hl => ?_, ?_⟩⟩, fun l hl => ?_⟩
  · exact reaches_reverse.1 ((hreached l hl).resolve_left List.not_mem_nil).1
  · rintro ⟨r, hr, hl⟩
    exact mem_of_reflTransGen (fun x y hx hxy => hclosed x hx y hxy) hl
      (hall r (.inr (List.mem_reverse.2 hr)))
  · exact ((hreached l hl).resolve_left List.not_mem_nil).2

/-- A request has no closure when it reaches a library that the catalog lacks, and one of those is
reported. -/
theorem closure_error {cause : Cause} (h : c.closure request = .error cause) :
    ∃ l, cause = .notInCatalog l ∧ Reaches c request l ∧ c.contains l = false := by
  obtain ⟨l, hcause, hl, hout⟩ := closureFrom_error h
  exact ⟨l, hcause, reaches_reverse.1 hl, hout⟩

/-- A request that reaches only what is in the catalog has a closure. -/
theorem closure_of_contains (hin : ∀ l, Reaches c request l → c.contains l = true) :
    ∃ s, c.closure request = .ok s ∧ IsClosure c request s := by
  cases h : c.closure request with
  | ok s => exact ⟨s, rfl, (closure_ok h).1⟩
  | error cause =>
    obtain ⟨l, -, hl, hout⟩ := closure_error h
    rw [hin l hl] at hout
    cases hout

/-- A request that reaches what the catalog lacks has none. -/
theorem closure_of_not_contains (hout : ∃ l, Reaches c request l ∧ c.contains l = false) :
    ∃ l, c.closure request = .error (.notInCatalog l) ∧ Reaches c request l ∧
      c.contains l = false := by
  cases h : c.closure request with
  | ok s =>
    obtain ⟨l, hl, hlout⟩ := hout
    obtain ⟨hs, hsin⟩ := closure_ok h
    rw [hsin l (((isClosure_iff.1 hs).2 l).2 hl)] at hlout
    cases hlout
  | error cause =>
    obtain ⟨l, rfl, hl, hlout⟩ := closure_error h
    exact ⟨l, rfl, hl, hlout⟩

end Sysroot.Catalog

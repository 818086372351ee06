import Mathlib
import Sysroot.Catalog.Order

/-!
# Prerequisites as a relation

What a catalog says of prerequisites is a relation between libraries, on all of them
(`Requires`) or within a request (`Needs`).  There are finitely many libraries, so who can always
go on to a prerequisite comes to one for the second time: `behindCycle_of_step`.
-/

namespace Sysroot.Catalog

variable {c : Catalog} {request : List Library} {l d : Library}

/-- Whether a library has another one as prerequisite. -/
def Requires (c : Catalog) (l d : Library) : Prop := d ∈ c.requires l

/-- Whether a library has another one as prerequisite, both being in a request. -/
def Needs (c : Catalog) (request : List Library) (l d : Library) : Prop :=
  l ∈ request ∧ d ∈ request ∧ d ∈ c.requires l

/-- Whether a relation leads from a library to a cycle. -/
def BehindCycle (r : Library → Library → Prop) (l : Library) : Prop :=
  ∃ m, Relation.ReflTransGen r l m ∧ Relation.TransGen r m m

theorem not_behindCycle_iff {r : Library → Library → Prop} :
    (∀ l, ¬ BehindCycle r l) ↔ ∀ l, ¬ Relation.TransGen r l l :=
  ⟨fun h l hl => h l ⟨l, .refl, hl⟩, fun h _ ⟨m, _, hm⟩ => h m hm⟩

/-- A library on a way through libraries that can all go on is behind a cycle.  The way gets
longer until it meets itself; `seen` is what it went through. -/
theorem behindCycle_of_way {r : Library → Library → Prop} {P : Library → Prop}
    (hstep : ∀ x, P x → ∃ y, r x y ∧ P y) (seen : List Library) {x : Library}
    (hway : Relation.ReflTransGen r l x) (hseen : ∀ y ∈ seen, Relation.ReflTransGen r y x)
    (hx : P x) : BehindCycle r l := by
  induction hn : lacking seen using Nat.strongRecOn generalizing seen x with
  | ind n ih =>
    subst hn
    obtain ⟨y, hxy, hy⟩ := hstep x hx
    by_cases hmem : y ∈ seen
    · exact ⟨y, hway.tail hxy, .tail' (hseen y hmem) hxy⟩
    · refine ih _ (lacking_append_lt hmem) _ (hway.tail hxy) ?_ hy rfl
      intro z hz
      rcases List.mem_append.1 hz with hz | hz
      · exact (hseen z hz).tail hxy
      · rw [List.mem_singleton.1 hz]

/-- Who can always go on is behind a cycle. -/
theorem behindCycle_of_step {r : Library → Library → Prop} {P : Library → Prop}
    (hstep : ∀ x, P x → ∃ y, r x y ∧ P y) (hl : P l) : BehindCycle r l :=
  behindCycle_of_way hstep [] .refl nofun hl

/-- Only a library of the request is behind a cycle within it. -/
theorem BehindCycle.mem (h : BehindCycle (Needs c request) l) : l ∈ request := by
  obtain ⟨m, hlm, hm⟩ := h
  obtain ⟨d, hld, -⟩ := Relation.TransGen.head'_iff.1 (Relation.TransGen.trans_right hlm hm)
  exact hld.1

/-- What a relation leads to from where it holds to where it holds. -/
theorem mem_of_reflTransGen {r : Library → Library → Prop} {P : Library → Prop}
    (hstep : ∀ x y, P x → r x y → P y) (h : Relation.ReflTransGen r l d) (hl : P l) : P d := by
  induction h with
  | refl => exact hl
  | tail _ hyz ih => exact hstep _ _ ih hyz

end Sysroot.Catalog

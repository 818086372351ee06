import Sysroot.Proofs.Catalog.Soundness
import Sysroot.Proofs.Plan.Objects
import Sysroot.Proofs.Run.Separate

/-!
# Embedded objects

A makefile that embeds the objects of other libraries is told, as `EXTRA_OBJS`, what it finds in their
directories of objects.  In a run that builds these libraries from sources this is what their archiving
took and what earlier builds left there, unless their build directories are cleared
(`Builder.embedded_of_comesTo`): objects of sources that are gone are embedded without being archived.
-/

namespace Sysroot

open Effect Sysroot.Tree Sysroot.Tree.Action Sysroot.Install

variable {σ : Type} {t : Tree} {R B : Location} {k j : Nat} {s : Site} {l d : Library}
  {e : Catalog.Entry} {plan : Plan} {object : String}

/-! ## Names of objects -/

theorem Pattern.matchName_object (stem : String) : matchName "*.o" (stem ++ ".o") = true := by
  have hitems : itemsWithin ("*.o" : String).length ("*.o" : String).toList =
      [.any, .char '.', .char 'o'] := by decide +kernel
  rw [matchName, hitems, String.toList_append]
  induction stem.toList with
  | nil => decide +kernel
  | cons c cs ih =>
    rw [List.cons_append, matchItems, ih, Bool.or_true]

/-- Whether a plan archives an object. -/
def Plan.Archives (plan : Plan) (object : String) : Prop :=
  ∃ i ∈ plan.invocations, i.tool = .ar ∧ object ∈ i.args.drop 2

/-- What a wild component selects in a directory below a seat is what is there and fits. -/
theorem Tree.Seat.mem_select {root p : Path} {names : List String} {text : String} {paths : List Path}
    (hseat : Seat t root R k) (hlinks : NoLinks t R) (hne : names ≠ []) (hnames : Descending names)
    (h : t.select (root.within names) ⟨[.wild text], false⟩ = .ok paths) (hpaths : paths ≠ []) :
    p ∈ paths ↔ ∃ name, Pattern.matchName text name = true ∧
      (t.get? (R ++ (names ++ [name]))).isSome ∧ p = (root.within names).within [name] := by
  have hquery := select_ne_nil h hpaths
  obtain ⟨paths', hselect, hmem⟩ := Tree.mem_select text hquery
  obtain rfl := Except.ok.inj (h.symm.trans hselect)
  rw [hmem, hseat.list_eq hlinks hne hnames hquery]
  simp only [mem_children, ← Option.isSome_iff_exists, List.append_assoc]
  exact exists_congr fun name => and_left_comm

namespace Site

/-- Whether an object was there before a run, in the directory of the objects of a library whose build
directory is not cleared. -/
def Leftover (s : Site) (B : Location) (t : Tree) (d : Library) (object : String) : Prop :=
  d ∉ s.settings.clobber ∧ ∃ name, Pattern.matchName "*.o" name = true ∧
    (t.get? (B ++ [d.name ++ "-build", "obj", name])).isSome ∧
    object = ((s.objectDir d).within [name]).text

/-! ## Plans -/

/-- What is archived is what the compilations put out. -/
theorem archives_iff (he : s.entry l = .ok e) (hin : e.Inward) (hkind : e.kind = .native)
    (hrecipe : e.recipe = some .sources) (h : s.plan t l = .ok plan) :
    plan.Archives object ↔ ∃ name, Pattern.matchName "*.o" name = true ∧
      (∃ i ∈ plan.invocations, ∃ y, s.settings.buildRoot.within y ∈ i.outputs ∧
        [e.library.name ++ "-build", "obj", name] <+: y) ∧
      object = ((s.objectDir e.library).within [name]).text := by
  have hinvocations := recipeInvocations_of_plan he hkind h
  rw [recipeInvocations, hrecipe] at hinvocations
  obtain ⟨files, flags, archiving, archive, hfiles, -, hall, harchive, htool, houtputs, hargs⟩ :=
    sourcesRecipe_ok hinvocations
  have hobject : ∀ file ∈ files, s.objectFile e file =
      (s.objectDir e.library).within [file.stem ++ ".o"] := fun file hfile =>
    objectFile_eq (sourceFiles_isFile hfiles file hfile)
  rw [Plan.Archives, hall]
  constructor
  · rintro ⟨i, hi, hi', hmem⟩
    rcases List.mem_append.1 hi with hi | hi
    · obtain ⟨file, -, rfl⟩ := List.mem_map.1 hi
      cases hi'
    obtain rfl := List.mem_singleton.1 hi
    rw [hargs] at hmem
    obtain ⟨file, hfile, rfl⟩ := List.mem_map.1 hmem
    refine ⟨file.stem ++ ".o", Pattern.matchName_object _, ⟨s.compile e (s.sourceDir e) flags file,
      List.mem_append_left _ (List.mem_map_of_mem hfile), _, ?_, List.prefix_rfl⟩, by rw [hobject file hfile]⟩
    refine List.mem_singleton.2 ?_
    rw [hobject file hfile, objectDir_eq, Path.within_within]
    rfl
  · rintro ⟨name, -, ⟨i, hi, y, hy, hpre⟩, rfl⟩
    rcases List.mem_append.1 hi with hi | hi
    · obtain ⟨file, hfile, rfl⟩ := List.mem_map.1 hi
      have hout := List.mem_singleton.1 hy
      rw [hobject file hfile, objectDir_eq, Path.within_within] at hout
      obtain rfl := within_injective hout
      obtain rfl : name = file.stem ++ ".o" := by simpa using hpre.eq_of_length rfl
      refine ⟨archiving, List.mem_append_right _ (List.mem_singleton_self _), htool, ?_⟩
      rw [hargs, ← hobject file hfile]
      exact List.mem_map_of_mem (f := fun file => (s.objectFile e file).text) hfile
    · obtain rfl := List.mem_singleton.1 hi
      rw [houtputs, List.mem_singleton, (hin.archive archive harchive).div_section (by decide),
        stageDir_eq, Path.within_within] at hy
      obtain rfl := within_injective hy
      simp at hpre

/-- The objects to embed are what is selected in the directories of objects, of which none is empty. -/
theorem embeddedObjects_ok {objects : List Path} (h : s.embeddedObjects t e = .ok objects) :
    (∀ d ∈ e.embedObjects, ∃ part, t.select (s.objectDir d) ⟨[.wild "*.o"], false⟩ = .ok part ∧
      part ≠ [] ∧ ∀ p ∈ part, p ∈ objects) ∧
    ∀ p ∈ objects, ∃ d ∈ e.embedObjects, ∃ part,
      t.select (s.objectDir d) ⟨[.wild "*.o"], false⟩ = .ok part ∧ p ∈ part := by
  obtain ⟨found, hfound, h⟩ := except_bind_ok h
  cases h
  have hparts := except_mapM_relates hfound
    (P := fun d part => t.select (s.objectDir d) ⟨[.wild "*.o"], false⟩ = .ok part ∧ part ≠ []) (by
      intro d part hpart
      obtain ⟨selected, hselect, hpart⟩ := except_bind_ok hpart
      split at hpart
      · cases hpart
      · next hne =>
        cases hpart
        exact ⟨mapError_ok hselect, hne⟩)
  refine ⟨fun d hd => ?_, fun p hp => ?_⟩
  · obtain ⟨part, hmem, hselect, hne⟩ := hparts.1 d hd
    exact ⟨part, hselect, hne, fun p hp => List.mem_flatten.2 ⟨part, hmem, hp⟩⟩
  · obtain ⟨part, hmem, hp⟩ := List.mem_flatten.1 hp
    obtain ⟨d, hd, hselect, -⟩ := hparts.2 part hmem
    exact ⟨d, hd, part, hselect, hp⟩

/-- The objects to embed are those in the directories of objects. -/
theorem mem_embeddedObjects {objects : List Path} {p : Path}
    (hseat : Seat t s.settings.buildRoot B j) (hlinks : NoLinks t B)
    (h : s.embeddedObjects t e = .ok objects) :
    p ∈ objects ↔ ∃ d ∈ e.embedObjects, ∃ name, Pattern.matchName "*.o" name = true ∧
      (t.get? (B ++ [d.name ++ "-build", "obj", name])).isSome ∧ p = (s.objectDir d).within [name] := by
  obtain ⟨hall, hfrom⟩ := embeddedObjects_ok h
  have hmem : ∀ {d : Library} {part : List Path},
      t.select (s.objectDir d) ⟨[.wild "*.o"], false⟩ = .ok part → part ≠ [] →
      (p ∈ part ↔ ∃ name, Pattern.matchName "*.o" name = true ∧
        (t.get? (B ++ [d.name ++ "-build", "obj", name])).isSome ∧
        p = (s.objectDir d).within [name]) := by
    intro d part hselect hne
    have hnames : Descending [d.name ++ "-build", "obj"] :=
      Plain.descending (plain_cons.2 ⟨isName_build d, by decide⟩)
    rw [objectDir_eq] at hselect ⊢
    exact hseat.mem_select hlinks (List.cons_ne_nil _ _) hnames hselect hne
  constructor
  · intro hp
    obtain ⟨d, hd, part, hselect, hpart⟩ := hfrom p hp
    exact ⟨d, hd, (hmem hselect (List.ne_nil_of_mem hpart)).1 hpart⟩
  · rintro ⟨d, hd, hp⟩
    obtain ⟨part, hselect, hne, hsub⟩ := hall d hd
    exact hsub p ((hmem hselect hne).2 hp)

/-- A makefile that embeds objects is told which. -/
theorem plan_makefile (he : s.entry l = .ok e) (hkind : e.kind = .native)
    (hrecipe : e.recipe = some .makefile) (hembeds : e.embedObjects ≠ [])
    (h : s.plan t l = .ok plan) :
    ∃ (objects : List Path) (make : Invocation) (assigned : List (String × String)),
      s.embeddedObjects t e = .ok objects ∧ plan.invocations = [make] ∧ make.tool = .make ∧
      make.args = makefileArgs (s.sourceDir e) (s.stageDir e.library) ++
        assigned.map (fun item => item.1 ++ "=" ++ item.2) ++ ["install"] ∧
      (assigned.map Prod.fst).Nodup ∧
      ("EXTRA_OBJS", Text.join " " (objects.map Path.text)) ∈ assigned := by
  have hinvocations := recipeInvocations_of_plan he hkind h
  rw [recipeInvocations, hrecipe] at hinvocations
  obtain ⟨source, hsource, hinvocations⟩ := except_bind_ok hinvocations
  obtain rfl := existingSourceDir_ok hsource
  obtain ⟨own, -, hinvocations⟩ := except_bind_ok hinvocations
  obtain ⟨objects, hobjects, hinvocations⟩ := except_bind_ok hinvocations
  have hne : objects ≠ [] := by
    obtain ⟨d, hd⟩ := List.exists_mem_of_ne_nil _ hembeds
    obtain ⟨part, -, hpart, hsub⟩ := (embeddedObjects_ok hobjects).1 d hd
    obtain ⟨p, hp⟩ := List.exists_mem_of_ne_nil _ hpart
    exact List.ne_nil_of_mem (hsub p hp)
  rw [if_neg hne] at hinvocations
  refine ⟨objects, _, _, hobjects, (Except.ok.inj hinvocations).symm, rfl, rfl, ?_, ?_⟩
  · exact ((List.mergeSort_perm _ _).map Prod.fst).nodup_iff.2 (OrderedMap.nodup_keys _)
  · rw [List.mem_mergeSort, OrderedMap.mem_pairs_iff, OrderedMap.find?_insertAll]
    rfl

end Site

namespace Builder

variable {b : Builder σ} {request : Option (List Library)} {order : List Library}
  {bench mid provided : Bench σ}

/-- Whether a run builds a library by a plan. -/
def BuildsBy (b : Builder σ) (request : Option (List Library)) (bench : Bench σ) (s : Site)
    (order : List Library) (l : Library) (plan : Plan) : Prop :=
  ∃ e mid provided prepared invoked after files, b.ComesTo request bench s order l mid ∧
    Run.Built b.runner s l e plan mid provided prepared invoked after files

section

variable (hs : (b.site none).Apart bench.tree R B k j) (hr : b.runner.Tidy b.settings.buildRoot B j)
  (hin : ∀ l e, b.catalog.find? l = some e → e.Inward)
  (hkeys : ∀ l e, b.catalog.find? l = some e → e.library = l)
  (hcomes : b.ComesTo request bench s order l mid)

include hs hr hin hkeys hcomes

/-- When a run comes to a library, the objects of a library that this one requires, and that the run has
built from sources, are those that were archived and those that were left over. -/
theorem ComesTo.mem_objects (hrequires : d ∈ b.catalog.requires l) (hord : d ∈ order)
    (hd : b.catalog.Compiles d) :
    ∃ plan, b.BuildsBy request bench s order d plan ∧
      ∀ object, (∃ name, Pattern.matchName "*.o" name = true ∧
          (mid.tree.get? (B ++ [d.name ++ "-build", "obj", name])).isSome ∧
          object = ((s.objectDir d).within [name]).text) ↔
        plan.Archives object ∨ s.Leftover B bench.tree d object := by
  obtain ⟨platformFile, start, pending, pending', turn, files, next, hstarts, rfl, hbefore, hgoing, hturn,
    hbuild, hafter⟩ := hcomes.turn_of_requires hrequires hord
  obtain ⟨e, plan, provided, prepared, invoked, hbuilt⟩ := Run.build_ok hbuild
  have hcomes' : b.ComesTo request bench (b.site platformFile) order d turn :=
    ⟨platformFile, start, pending, hstarts, rfl, hbefore, hgoing, hturn⟩
  refine ⟨plan, ⟨e, turn, provided, prepared, invoked, next, files, hcomes', hbuilt⟩, fun object => ?_⟩
  -- what there is in the build directory is followed from the start of the run
  obtain ⟨hs', hground, -⟩ := hcomes'.grounded hr.confined hin hs
  have hnodup := hbefore.nodup (resolve_spec hstarts.resolved).1
  have hstart : d.SameBuild B bench.tree start.tree :=
    sameBuild_of_prepareRoots hs (Work.onTree_eq hstarts.roots).1
  have hground₀ : Grounded R B bench.tree start.tree :=
    (prepareRoots_grounded hs (Work.onTree_eq hstarts.roots).1).1
  have hsame := hstart.trans (hbefore.sameBuild hs' hr hin hkeys hd hground₀
    (resolve_spec hstarts.resolved).1 (.inr (List.mem_of_find?_eq_some hturn)))
  have hsame' := hafter.sameBuild hs' hr hin hkeys hd
    (grounded_of_build hs' hr.confined hin hbuild hground) (hnodup.erase d)
    (.inl hnodup.not_mem_erase)
  obtain ⟨e', he', hkind, hrecipe⟩ := hd
  obtain rfl := Option.some.inj ((Site.entry_ok hbuilt.entry).symm.trans he')
  have hiff : ∀ name, (mid.tree.get? (B ++ [d.name ++ "-build", "obj", name])).isSome ↔
      (∃ i ∈ plan.invocations, ∃ y, b.settings.buildRoot.within y ∈ i.outputs ∧
        [e.library.name ++ "-build", "obj", name] <+: y) ∨
      d ∉ b.settings.clobber ∧ (bench.tree.get? (B ++ [d.name ++ "-build", "obj", name])).isSome := by
    intro name
    rw [hsame' ["obj", name], hbuilt.isSome_iff hs' hr hin hkeys hground ⟨e, he', hkind, hrecipe⟩
      (List.cons_ne_nil "obj" [name]) (by simp), hsame ["obj", name], hkeys d e he']
    rfl
  rw [Site.archives_iff hbuilt.entry (hin d e he') hkind hrecipe hbuilt.plans, hkeys d e he',
    Site.Leftover]
  simp only [hiff, hkeys d e he']
  constructor
  · rintro ⟨name, hname, hout | ⟨hclear, hsome⟩, rfl⟩
    · exact .inl ⟨name, hname, hout, rfl⟩
    · exact .inr ⟨hclear, name, hname, hsome, rfl⟩
  · rintro (⟨name, hname, hout, rfl⟩ | ⟨hclear, name, hname, hsome, rfl⟩)
    · exact ⟨name, hname, .inl hout, rfl⟩
    · exact ⟨name, hname, .inr ⟨hclear, hsome⟩, rfl⟩

/-- When a run has built libraries from sources whose objects are embedded, the makefile that embeds them
is told the objects that their plans archive and those that are left over from earlier builds, and no
others. -/
theorem embedded_of_comesTo (he : s.entry l = .ok e) (hkind : e.kind = .native)
    (hrecipe : e.recipe = some .makefile) (hembeds : e.embedObjects ≠ [])
    (hbuilt : ∀ d ∈ e.embedObjects, d ∈ order ∧ b.catalog.Compiles d)
    (hprovides : e.headerRequires.forM (Run.provideHeaders b.runner s e)
      (Work.enter l .planning mid).2 = (.ok (), provided))
    (hplan : s.plan provided.tree l = .ok plan) :
    ∃ (objects : List String) (make : Invocation) (assigned : List (String × String))
      (planOf : Library → Plan),
      plan.invocations = [make] ∧ make.tool = .make ∧
      make.args = Site.makefileArgs (s.sourceDir e) (s.stageDir e.library) ++
        assigned.map (fun item => item.1 ++ "=" ++ item.2) ++ ["install"] ∧
      (assigned.map Prod.fst).Nodup ∧ ("EXTRA_OBJS", Text.join " " objects) ∈ assigned ∧
      (∀ d ∈ e.embedObjects, b.BuildsBy request bench s order d (planOf d)) ∧
      ∀ object, object ∈ objects ↔
        ∃ d ∈ e.embedObjects, (planOf d).Archives object ∨ s.Leftover B bench.tree d object := by
  obtain ⟨objects, make, assigned, hobjects, hinvocations, htool, hargs, hnodup, hmem⟩ :=
    Site.plan_makefile he hkind hrecipe hembeds hplan
  obtain ⟨hs', hground, hl, hcatalog, hsettings⟩ := hcomes.grounded hr.confined hin hs
  have hin' : ∀ l e, s.catalog.find? l = some e → e.Inward := hcatalog ▸ hin
  have hkeys' : ∀ l e, s.catalog.find? l = some e → e.library = l := hcatalog ▸ hkeys
  have hr' : b.runner.Tidy s.settings.buildRoot B j := hsettings ▸ hr
  have hrequires : ∀ d ∈ e.embedObjects, d ∈ b.catalog.requires l := by
    intro d hd
    obtain ⟨platformFile, start, pending, hstarts, -⟩ := hcomes
    obtain ⟨⟨⟩, hcheck, -⟩ := except_bind_ok hstarts.resolved
    have hfind : b.catalog.find? l = some e := hcatalog ▸ Site.entry_ok he
    rw [Catalog.requires, hfind]
    exact (Catalog.check_eq_ok_iff.1 hcheck).embedded l e hfind d hd
  have hplanOf : ∀ d, ∃ planOf, d ∈ e.embedObjects → b.BuildsBy request bench s order d planOf ∧
      ∀ object, (∃ name, Pattern.matchName "*.o" name = true ∧
          (mid.tree.get? (B ++ [d.name ++ "-build", "obj", name])).isSome ∧
          object = ((s.objectDir d).within [name]).text) ↔
        planOf.Archives object ∨ s.Leftover B bench.tree d object := by
    intro d
    by_cases hd : d ∈ e.embedObjects
    · obtain ⟨hord, hcompiles⟩ := hbuilt d hd
      obtain ⟨planOf, hplanOf⟩ := hcomes.mem_objects hs hr hin hkeys (hrequires d hd) hord hcompiles
      exact ⟨planOf, fun _ => hplanOf⟩
    · exact ⟨plan, fun hmem => absurd hmem hd⟩
  choose planOf hplanOf using hplanOf
  refine ⟨objects.map Path.text, make, assigned, planOf, hinvocations, htool, hargs, hnodup, hmem,
    fun d hd => (hplanOf d hd).1, fun object => ?_⟩
  have hsteps : Work.Stepwise b.runner s [l] (e.headerRequires.forM (Run.provideHeaders b.runner s e)) :=
    Keeps.forM fun d _ => Run.stepwise_provideHeaders hin' e d
  have hprovided : Grounded R B bench.tree provided.tree :=
    Run.grounded_of_stepwise hs' hr'.confined hin' hsteps hprovides hground
  have hsame : ∀ d ∈ e.embedObjects, d.SameBuild B mid.tree provided.tree := fun d hd =>
    Run.sameBuild_of_headers (b := (Work.enter l .planning mid).2) hs' hr' hin' hkeys'
      (hcatalog ▸ (hbuilt d hd).2) hground hprovides
  have hfound := fun p => Site.mem_embeddedObjects (p := p) (hprovided.seat_builds hs')
    hprovided.links_builds hobjects
  rw [List.mem_map]
  constructor
  · rintro ⟨p, hp, rfl⟩
    obtain ⟨d, hd, name, hname, hsome, rfl⟩ := (hfound p).1 hp
    rw [hsame d hd ["obj", name]] at hsome
    exact ⟨d, hd, ((hplanOf d hd).2 _).1 ⟨name, hname, hsome, rfl⟩⟩
  · rintro ⟨d, hd, hobject⟩
    obtain ⟨name, hname, hsome, rfl⟩ := ((hplanOf d hd).2 object).2 hobject
    rw [← hsame d hd ["obj", name]] at hsome
    exact ⟨_, (hfound _).2 ⟨d, hd, name, hname, hsome, rfl⟩, rfl⟩

end

/-- A library that is built from sources. -/
def embeddedEntry : Catalog.Entry where
  library := .dlmalloc
  role := "allocator"
  kind := .native
  recipe := some .sources
  source := "dlmalloc"
  archive := "libdlmalloc.a"
  sources := ["*.c"]

/-- A library whose makefile embeds the objects of that one. -/
def embeddingEntry : Catalog.Entry where
  library := .libc
  role := "C library"
  kind := .native
  recipe := some .makefile
  source := "libc"
  archive := "libc.a"
  requires := [.dlmalloc]
  embedObjects := [.dlmalloc]

/-- A rehearsal of the two. -/
def rehearsedEmbedding : Builder Rehearsal.State where
  settings := headerChain.settings
  toolchain := { headerChain.toolchain with make := some ⟨.root, ["make"]⟩ }
  catalog := .ofList [(.dlmalloc, embeddedEntry), (.libc, embeddingEntry)]
  runner := ({} : Rehearsal).runner

/-- Their sources, and an object that an earlier build left. -/
def staleObject : Tree where
  entries := [(["src"], .dir), (["src", "dlmalloc"], .dir), (["src", "dlmalloc", "malloc.c"], .file [] false),
    (["src", "libc"], .dir), (["build"], .dir), (["build", "dlmalloc-build"], .dir),
    (["build", "dlmalloc-build", "obj"], .dir),
    (["build", "dlmalloc-build", "obj", "old.o"], .file [] false)]
  nodup := by decide
  root_free := by decide
  housed := by decide
  named := by decide +kernel
  home := []

theorem entry_rehearsedEmbedding (h : rehearsedEmbedding.catalog.find? l = some e) :
    l = .dlmalloc ∧ e = embeddedEntry ∨ l = .libc ∧ e = embeddingEntry := by
  have hmem : (l, e) ∈ rehearsedEmbedding.catalog.pairs := OrderedMap.mem_pairs_iff.2 h
  simpa [show rehearsedEmbedding.catalog.pairs = [(.dlmalloc, embeddedEntry), (.libc, embeddingEntry)]
    from rfl] using hmem

theorem apart_staleObject :
    (rehearsedEmbedding.site none).Apart staleObject ["s"] ["build"] linkBudget linkBudget := by
  refine Site.apart_of_plain (L := []) (fun t' _ => seat_root t') rfl rfl (by decide +kernel)
    (by decide) (by decide) (noLinks_of_entries (by decide)) fun l e directory he hdirectory => ?_
  rcases entry_rehearsedEmbedding he with ⟨-, rfl⟩ | ⟨-, rfl⟩ <;> cases hdirectory

/-- The bench on which the rehearsal goes through its loop. -/
def embeddingStart : Bench Rehearsal.State :=
  (Work.onTree (rehearsedEmbedding.prepareRoots [.dlmalloc, .libc])
    ((opened [.dlmalloc, .libc] { tree := staleObject, memory := ({} : Rehearsal.State) }).note
      (rehearsedEmbedding.opening [.dlmalloc, .libc]))).2

/-- How the first of them is built. -/
def embeddedBuild : Except Fault (List Path) × Bench Rehearsal.State :=
  Run.build rehearsedEmbedding.runner (rehearsedEmbedding.site none) .dlmalloc embeddingStart

/-- The run comes to the makefile, which can be planned then. -/
theorem comesTo_rehearsedEmbedding : ∃ mid plan,
    rehearsedEmbedding.ComesTo (some [.libc, .dlmalloc]) { tree := staleObject, memory := {} }
      (rehearsedEmbedding.site none) [.dlmalloc, .libc] .libc mid ∧
      (rehearsedEmbedding.site none).plan mid.tree .libc = .ok plan := by
  have hbuild : embeddedBuild.1.toOption.isSome = true ∧
      ((rehearsedEmbedding.site none).plan embeddedBuild.2.tree .libc).toOption.isSome = true ∧
      embeddedBuild.2.cancelled = false ∧
      [Library.libc].find? (rehearsedEmbedding.isReady [.dlmalloc, .libc] embeddedBuild.2) =
        some .libc := by
    unfold embeddedBuild Run.build
    simp only [Run.invoke, Run.prepareDirs, Path.sort_eq, Site.plan, Site.nativePlan,
      Site.recipeInvocations, Site.makefileRecipe, Site.embeddedObjects, Tree.select, Tree.selectFrom,
      Tree.list, children_eq_insertionSort]
    decide +kernel
  obtain ⟨hok, hplans, hgoing, hready⟩ := hbuild
  obtain ⟨files, hfiles⟩ := Option.isSome_iff_exists.1 hok
  obtain ⟨plan, hplan⟩ := Option.isSome_iff_exists.1 hplans
  have hroots : (Work.onTree (rehearsedEmbedding.prepareRoots [.dlmalloc, .libc])
      ((opened [.dlmalloc, .libc] { tree := staleObject, memory := ({} : Rehearsal.State) }).note
        (rehearsedEmbedding.opening [.dlmalloc, .libc]))).1.toOption = some none := by decide +kernel
  refine ⟨embeddedBuild.2, plan, ⟨none, embeddingStart, [.libc], ⟨by cbv, by cbv, eq_of_toOption hroots⟩, rfl,
    .build (by decide +kernel) (by decide +kernel) (eq_of_toOption hfiles) (.refl _ _), hgoing, hready⟩, ?_⟩
  rcases hmade : (rehearsedEmbedding.site none).plan embeddedBuild.2.tree .libc with fault | plan'
  · rw [hmade] at hplan
    cases hplan
  · rw [hmade] at hplan
    exact congrArg Except.ok (Option.some.inj hplan)

/-- The object that was left is among those that the makefile is told. -/
theorem embedded_of_comesTo_staleObject : ∃ (mid : Bench Rehearsal.State) (plan : Plan)
    (objects : List String) (make : Invocation) (assigned : List (String × String)),
    rehearsedEmbedding.ComesTo (some [.libc, .dlmalloc]) { tree := staleObject, memory := {} }
      (rehearsedEmbedding.site none) [.dlmalloc, .libc] .libc mid ∧
    (rehearsedEmbedding.site none).plan mid.tree .libc = .ok plan ∧ plan.invocations = [make] ∧
    ("EXTRA_OBJS", Text.join " " objects) ∈ assigned ∧
    "/build/dlmalloc-build/obj/old.o" ∈ objects := by
  obtain ⟨mid, plan, hcomes, hplan⟩ := comesTo_rehearsedEmbedding
  have hundisturbed : Rehearsal.Undisturbed {} := ⟨fun _ => rfl, rfl⟩
  obtain ⟨objects, make, assigned, planOf, hinvocations, -, -, -, hassigned, -, hiff⟩ :=
    embedded_of_comesTo apart_staleObject hundisturbed.tidy (fun l e he => by
        rcases entry_rehearsedEmbedding he with ⟨-, rfl⟩ | ⟨-, rfl⟩
        · exact ⟨fun a ha => by cases ha; decide +kernel, nofun, by decide +kernel⟩
        · exact ⟨fun a ha => by cases ha; decide +kernel, nofun, by decide +kernel⟩)
      (fun l e he => by rcases entry_rehearsedEmbedding he with ⟨rfl, rfl⟩ | ⟨rfl, rfl⟩ <;> rfl)
      hcomes (show (rehearsedEmbedding.site none).entry .libc = .ok embeddingEntry from rfl) rfl rfl (List.cons_ne_nil _ _) (fun d hd => by
        obtain rfl := List.mem_singleton.1 hd
        exact ⟨by decide, embeddedEntry, rfl, rfl, rfl⟩) rfl hplan
  refine ⟨mid, plan, objects, make, assigned, hcomes, hplan, hinvocations, hassigned,
    (hiff _).2 ⟨.dlmalloc, List.mem_singleton_self _, .inr ⟨by decide, "old.o", ?_⟩⟩⟩
  exact ⟨by decide +kernel, by decide +kernel, by decide +kernel⟩

end Builder

end Sysroot

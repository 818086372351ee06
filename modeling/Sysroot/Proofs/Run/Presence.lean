import Sysroot.Proofs.Install.Contents
import Sysroot.Proofs.Plan.Prerequisites
import Sysroot.Proofs.Run.OnlyInstalls
import Sysroot.Proofs.Run.Turns

/-!
# What is there of a library that is done

An entry may name an archive and a marker header.  When a library becomes done, each of the two is a
file in the sysroot exactly if it was installed, or was there before and no file was installed at a
directory on the way to it (`Run.Built.query_iff`).  It is installed exactly if it was staged as a
file, or, for a header, is among the headers that are copied from the sources
(`Run.Built.mem_files`); what the build must stage is there, if only as a directory
(`Run.Built.staged`).  Later steps leave both in place unless they deliver a file at a directory on
the way (`Run.Steps.keeps`), so that the check of prerequisites does not fail on their account
(`Builder.installed_when_done`).
-/

namespace Sysroot

open Effect Sysroot.Tree Sysroot.Tree.Action Sysroot.Install

variable {σ : Type} {s : Site} {r : Runner σ} {order : List Library} {l : Library}
  {e : Catalog.Entry} {plan : Plan} {files : List Path} {t₀ t : Tree} {x : List String}
  {bench mid after provided prepared invoked later : Bench σ} {R B : Location} {k j : Nat}
  {ds : List Delivery} {d : Delivery}

/-! ## Later steps -/

/-- Whether a delivery puts a file at a directory on the way to a path. -/
def Delivery.Hides (root : Path) (d : Delivery) (p : Path) : Prop :=
  ∃ files, d.request.run root d.library d.before = (.ok files, d.after) ∧
    ∃ f ∈ files, f ≠ p ∧ f.parts <+: p.parts

/-- A file stays where it is when the files of the sysroot do. -/
theorem Grounded.query_of_sameFiles {t' : Tree} (h : Grounded R B t₀ t) (h' : Grounded R B t₀ t')
    (hs : s.Apart t₀ R B k j) (hsame : SameFiles R t t') (hne : x ≠ []) (hx : Descending x)
    (hfile : t.query (s.root.within x) Tree.isFile = .ok true) :
    t'.query (s.root.within x) Tree.isFile = .ok true := by
  obtain ⟨hfits, content, executable, hn⟩ :=
    (query_isFile_iff (h.seat_sysroot hs) h.links_sysroot hne hx).1 hfile
  refine (query_isFile_iff (h'.seat_sysroot hs) h'.links_sysroot hne hx).2
    ⟨hfits, content, executable, ?_⟩
  rcases hsame x with heq | ⟨hnone, -⟩
  · rw [heq, hn]
  · rw [hnone] at hn
    cases hn

section

variable (hs : s.Apart t₀ R B k j) (hr : r.Confined s.settings.buildRoot B j)
  (hin : ∀ l e, s.catalog.find? l = some e → e.Inward)

include hs hin in
/-- A request that is carried out leaves a file where it is unless it puts one on the way there. -/
theorem Site.Requests.keeps {request : Request} {t' : Tree} (h : s.Requests l request)
    (hground : Grounded R B t₀ t) (hrun : request.run s.root l t = (.ok files, t')) (hne : x ≠ [])
    (hx : Descending x) (hmanifest : x.head? ≠ some ".manifests")
    (hhides : ¬ Delivery.Hides s.root ⟨l, request, t, t'⟩ (s.root.within x))
    (hfile : t.query (s.root.within x) Tree.isFile = .ok true) :
    t'.query (s.root.within x) Tree.isFile = .ok true := by
  have hne' : x ≠ manifestNames l := fun heq => hmanifest (by rw [heq]; rfl)
  refine ((h.aimed hin hs hground).query_isFile_iff (hground.seat_sysroot hs)
    hground.links_sysroot hrun hne hx hne').2 ?_
  by_cases hmem : s.root.within x ∈ files
  · exact .inl hmem
  · refine .inr ⟨hfile, fun f hf hpre => hhides ⟨files, hrun, f, hf, fun heq => ?_, hpre⟩⟩
    exact hmem (heq ▸ hf)

include hs hr hin in
/-- Steps leave a file of the sysroot where it is unless they deliver one on the way there. -/
theorem Run.Steps.keeps (h : Run.Steps r s order bench ds later)
    (hground : Grounded R B t₀ bench.tree) (hne : x ≠ []) (hx : Descending x)
    (hmanifest : x.head? ≠ some ".manifests") (hhides : ∀ d ∈ ds, ¬ d.Hides s.root (s.root.within x))
    (hfile : bench.tree.query (s.root.within x) Tree.isFile = .ok true) :
    later.tree.query (s.root.within x) Tree.isFile = .ok true := by
  induction h with
  | refl => exact hfile
  | step first rest ih =>
    obtain ⟨hground', es, hledger⟩ := first.ledger hs hr hin hground
    refine ih hground' (fun d hd => hhides d (List.mem_append_right _ hd)) ?_
    have hfirst := fun d hd => hhides d (List.mem_append_left _ hd)
    cases first with
    | provide dependent hrequest hrun =>
      exact hrequest.keeps hs hin hground hrun hne hx hmanifest
        (hfirst _ (List.mem_singleton_self _)) hfile
    | install hl hrequest hrun =>
      exact hrequest.keeps hs hin hground hrun hne hx hmanifest
        (hfirst _ (List.mem_singleton_self _)) hfile
    | _ => exact hground.query_of_sameFiles hground' hs hledger.leads hne hx hfile

/-! ## The moment a library is done -/

namespace Run.Built

variable (h : Built r s l e plan bench provided prepared invoked after files)
  (hground : Grounded R B t₀ bench.tree)

include h hs hr hin hground

/-- After a build a file is in the sysroot if it was installed, or if it was there before and no
file was installed at a directory on the way to it. -/
theorem query_iff {text name : String} (htext : Path.GoesDown text) (hname : isName name = true)
    (hmanifest : name ≠ ".manifests") :
    after.tree.query (s.root / name / text) Tree.isFile = .ok true ↔ s.root / name / text ∈ files ∨
      invoked.tree.query (s.root / name / text) Tree.isFile = .ok true ∧
        ∀ f ∈ files, ¬ f.parts <+: (s.root / name / text).parts := by
  obtain ⟨-, -, hinvoked⟩ := h.grounded hs hr hin hground
  rw [htext.div_section hname]
  exact ((h.requests hin).aimed hin hs hinvoked).query_isFile_iff (hinvoked.seat_sysroot hs)
    hinvoked.links_sysroot h.installs (List.cons_ne_nil _ _) (htext.descending_section hname)
    fun heq => hmanifest (List.cons.inj heq).1

/-- What a build gives to a place is what it installs there. -/
theorem mem_files {text name : String} (htext : Path.GoesDown text) (hname : isName name = true) :
    s.root / name / text ∈ files ↔ ∃ origin, (Request.stage (source plan)).Gives invoked.tree
      (name :: (Path.ofText text).parts) origin := by
  obtain ⟨-, -, hinvoked⟩ := h.grounded hs hr hin hground
  have hseat := hinvoked.seat_sysroot hs
  rw [htext.div_section hname]
  exact ((h.requests hin).aimed hin hs hinvoked).mem_files rfl (sited_of_seat hseat) hseat.null
    hinvoked.links_sysroot h.installs

/-- What must be staged for a section is a directory, or among its files. -/
theorem staged {text name : String} (htext : Path.GoesDown text) (hname : isName name = true)
    (hne : (Path.ofText text).parts ≠ [])
    (hexpected : s.stageDir e.library / name / text ∈ plan.staged) :
    invoked.tree.isDir (s.stageDir e.library / name / text) = true ∨
      s.stageDir e.library / name / text ∈
        invoked.tree.filesUnder (s.stageDir e.library / name) := by
  obtain ⟨-, -, hinvoked⟩ := h.grounded hs hr hin hground
  have hseat := hinvoked.seat_sysroot hs
  obtain ⟨m, hm, -⟩ := ((h.requests hin).aimed hin hs hinvoked).filled (sited_of_seat hseat)
    hseat.null hinvoked.links_sysroot h.installs
  have hstage : s.stageDir e.library / name =
      s.settings.buildRoot.within [e.library.name ++ "-build", "stage", name] := by
    rw [s.stageDir_eq, Path.div_name hname, Path.within_within]
    rfl
  have hplain : Plain [e.library.name ++ "-build", "stage", name] :=
    plain_cons.2 ⟨Site.isName_build _, plain_cons.2 ⟨by decide, plain_cons.2 ⟨hname, plain_nil⟩⟩⟩
  have hthere := (Request.mapping_stage hm).1 _ hexpected
  rw [htext.div, hstage, Path.within_within] at hthere ⊢
  exact mem_filesUnder_of_occupies (hinvoked.seat_builds hs) hinvoked.links_builds
    (List.cons_ne_nil _ _) hne (hplain.descending.append htext.descending) hthere

end Run.Built

end

/-- The check of prerequisites does not fail for want of an archive that is there. -/
theorem Site.not_archiveMissing {a : String} (he : s.entry l = .ok e) (ha : e.archive = some a)
    (hthere : hasArchive t s.root a = .ok true) (e' : Catalog.Entry) (q : Library) (text : String) :
    s.checkPrerequisites t e' ≠ .error (.caused (.archiveMissing q l text)) := by
  intro hcheck
  obtain ⟨e'', a', he', ha', hmissing⟩ := (blames_checkPrerequisites _ hcheck).2 q l text rfl
  obtain rfl := Except.ok.inj (he.symm.trans he')
  obtain rfl := Option.some.inj (ha.symm.trans ha')
  rw [hthere] at hmissing
  cases hmissing

/-- Nor for want of a marker header that is there. -/
theorem Site.not_headersMissing {h : String} (he : s.entry l = .ok e) (hh : e.markerHeader = some h)
    (hthere : hasHeader t s.root h = .ok true) (e' : Catalog.Entry) (q : Library) (text : String) :
    s.checkPrerequisites t e' ≠ .error (.caused (.headersMissing q l text)) := by
  intro hcheck
  obtain ⟨e'', h', he', hh', hmissing⟩ := (blames_checkPrerequisites _ hcheck).1 q l text rfl
  obtain rfl := Except.ok.inj (he.symm.trans he')
  obtain rfl := Option.some.inj (hh.symm.trans hh')
  rw [hthere] at hmissing
  cases hmissing

/-- What is there of a library when a run has built it.  Its state is `done` then, and it was built
in phases, the last of which installs what is staged in the tree as the invocations leave it.  The
archive that its entry names is a file below `lib` exactly if it was installed, or was there before
and no file was installed at a directory on the way to it; it was installed exactly if it was staged
as a file.  Likewise for the marker header below `include`, which may as well be among the headers
that are copied from the sources.  What the build must stage was installed, unless it was staged as
a directory.  In later steps of the run the check of prerequisites does not fail for want of an
archive or a header of the library that was there, unless a file was delivered at a directory on the
way to it. -/
theorem Builder.installed_when_done {b : Builder σ} {request : Option (List Library)}
    (hr : b.runner.Confined b.settings.buildRoot B j)
    (hin : ∀ l e, b.catalog.find? l = some e → e.Inward)
    (hs : (b.site none).Apart bench.tree R B k j) (hcomes : b.ComesTo request bench s order l mid)
    (hbuild : Run.build b.runner s l mid = (.ok files, after)) :
    after.stateOf l = .done ∧ ∃ e plan provided prepared invoked,
      Run.Built b.runner s l e plan mid provided prepared invoked after files ∧
      (∀ a, e.archive = some a →
        (hasArchive after.tree s.root a = .ok true ↔ libDir s.root / a ∈ files ∨
          hasArchive invoked.tree s.root a = .ok true ∧
            ∀ f ∈ files, ¬ f.parts <+: (libDir s.root / a).parts) ∧
        (libDir s.root / a ∈ files ↔ s.stageDir e.library / "lib" / a ∈
          invoked.tree.filesUnder (s.stageDir e.library / "lib")) ∧
        (e.StagesArchive → (Path.ofText a).parts ≠ [] →
          invoked.tree.isDir (s.stageDir e.library / "lib" / a) = true ∨
            libDir s.root / a ∈ files)) ∧
      (∀ h, e.markerHeader = some h →
        (hasHeader after.tree s.root h = .ok true ↔ includeDir s.root / h ∈ files ∨
          hasHeader invoked.tree s.root h = .ok true ∧
            ∀ f ∈ files, ¬ f.parts <+: (includeDir s.root / h).parts) ∧
        (includeDir s.root / h ∈ files ↔ s.stageDir e.library / "include" / h ∈
            invoked.tree.filesUnder (s.stageDir e.library / "include") ∨
          ∃ dir place more, s.copied e = some (dir, place) ∧
            (Path.ofText h).parts = (Path.ofText place).parts ++ more ∧
            dir.within more ∈ invoked.tree.filesUnder dir) ∧
        (e.StagesMarker → (Path.ofText h).parts ≠ [] →
          invoked.tree.isDir (s.stageDir e.library / "include" / h) = true ∨
            includeDir s.root / h ∈ files)) ∧
      ∀ ds later, Run.Steps b.runner s order after ds later →
        (∀ a, e.archive = some a → hasArchive after.tree s.root a = .ok true →
          (∀ d ∈ ds, ¬ d.Hides s.root (libDir s.root / a)) → ∀ e' q text,
            s.checkPrerequisites later.tree e' ≠ .error (.caused (.archiveMissing q l text))) ∧
        (∀ h, e.markerHeader = some h → hasHeader after.tree s.root h = .ok true →
          (∀ d ∈ ds, ¬ d.Hides s.root (includeDir s.root / h)) → ∀ e' q text,
            s.checkPrerequisites later.tree e' ≠ .error (.caused (.headersMissing q l text))) := by
  obtain ⟨hs, hground, hl, hcatalog, hsettings⟩ := hcomes.grounded hr hin hs
  rw [← hsettings] at hr
  rw [← hcatalog] at hin
  obtain ⟨e, plan, provided, prepared, invoked, hbuilt⟩ := Run.build_ok hbuild
  have he := hbuilt.entry
  have hinward := hin l e (Site.entry_ok he)
  have hinstalls : s.Installs e plan := Site.plan_installs he hbuilt.plans
  have hstage : plan.stageDir = s.stageDir e.library :=
    (Site.plan_contains he hinward hbuilt.plans).stageDir
  have hlater : ∀ ds later, Run.Steps b.runner s order after ds later → ∀ name text,
      Path.GoesDown text → isName name = true → name ≠ ".manifests" →
      (∀ d ∈ ds, ¬ d.Hides s.root (s.root / name / text)) →
      after.tree.query (s.root / name / text) Tree.isFile = .ok true →
      later.tree.query (s.root / name / text) Tree.isFile = .ok true := by
    intro ds later hsteps name text htext hname hmanifest hhides hfile
    obtain ⟨ds', hbefore⟩ : Run.Advances b.runner s order mid after :=
      (Run.stepwise_build hin hl).of_apply hbuild fun _ he => by cases he
    rw [htext.div_section hname] at hhides hfile ⊢
    exact hsteps.keeps hs hr hin (hbefore.ledger hs hr hin hground).1 (List.cons_ne_nil _ _)
      (htext.descending_section hname) (by simpa using hmanifest) hhides hfile
  refine ⟨?_, e, plan, provided, prepared, invoked, hbuilt, fun a ha => ?_, fun h hh => ?_,
    fun ds later hsteps => ⟨fun a ha hthere hhides => ?_, fun h hh hthere hhides => ?_⟩⟩
  · rw [hbuilt.finishes]
    exact Work.stateOf_enter l .done _
  · have htext := hinward.archive a ha
    have hmem : libDir s.root / a ∈ files ↔ _ :=
      (hbuilt.mem_files hs hr hin hground htext (by decide)).trans Request.gives_lib
    rw [← htext.div, show (Run.source plan).stage = _ from hstage] at hmem
    refine ⟨hbuilt.query_iff hs hr hin hground htext (by decide) (by decide), hmem,
      fun hstages hne => ?_⟩
    rw [hmem]
    exact hbuilt.staged hs hr hin hground htext (by decide) hne (hinstalls.archive hstages a ha)
  · have htext := hinward.marker h hh
    have hmem : includeDir s.root / h ∈ files ↔ _ :=
      (hbuilt.mem_files hs hr hin hground htext (by decide)).trans Request.gives_include
    rw [← htext.div, show (Run.source plan).stage = _ from hstage,
      show (Run.source plan).headers = _ from hinstalls.headers] at hmem
    refine ⟨hbuilt.query_iff hs hr hin hground htext (by decide) (by decide), hmem,
      fun hstages hne => ?_⟩
    rw [hmem]
    exact (hbuilt.staged hs hr hin hground htext (by decide) hne (hinstalls.marker hstages h hh)).imp id .inl
  · exact Site.not_archiveMissing he ha (hlater ds later hsteps "lib" a (hinward.archive a ha)
      (by decide) (by decide) hhides hthere)
  · exact Site.not_headersMissing he hh (hlater ds later hsteps "include" h (hinward.marker h hh)
      (by decide) (by decide) hhides hthere)

namespace Builder

/-- A rehearsal of a library of headers whose marker is among them. -/
def rehearsedMarker : Builder Rehearsal.State where
  settings := headerChain.settings
  toolchain := headerChain.toolchain
  catalog := .ofList [(.compat, { headersOf .compat "compat" [] with markerHeader := some "v" })]
  runner := ({} : Rehearsal).runner

theorem entry_rehearsedMarker (h : rehearsedMarker.catalog.find? l = some e) :
    e = { headersOf .compat "compat" [] with markerHeader := some "v" } := by
  have hmem : e ∈ rehearsedMarker.catalog.pairs.map Prod.snd :=
    List.mem_map_of_mem (OrderedMap.mem_pairs_iff.2 h)
  exact List.mem_singleton.1 hmem

theorem apart_rehearsedMarker :
    (rehearsedMarker.site none).Apart firstSources ["s"] ["build"] linkBudget linkBudget := by
  refine Site.apart_of_plain (L := []) (fun t' _ => seat_root t') rfl rfl (by decide +kernel)
    (by decide) (by decide) (noLinks_of_entries (by decide)) fun l e directory he hdirectory => ?_
  obtain rfl := entry_rehearsedMarker he
  cases hdirectory
  exact ⟨_, rfl, by decide +kernel, by decide +kernel, by decide +kernel⟩

/-- The bench on which the rehearsal goes through its loop. -/
def markerStart : Bench Rehearsal.State :=
  (Work.onTree (rehearsedMarker.prepareRoots [.compat])
    ((opened [.compat] { tree := firstSources, memory := ({} : Rehearsal.State) }).note
      (rehearsedMarker.opening [.compat]))).2

theorem comesTo_rehearsedMarker :
    rehearsedMarker.ComesTo (some [.compat]) { tree := firstSources, memory := {} }
      (rehearsedMarker.site none) [.compat] .compat markerStart := by
  have hresolve : rehearsedMarker.resolve (some [.compat]) = .ok [.compat] := by cbv
  have hroots : (Work.onTree (rehearsedMarker.prepareRoots [.compat])
      ((opened [.compat] { tree := firstSources, memory := ({} : Rehearsal.State) }).note
        (rehearsedMarker.opening [.compat]))).1.toOption = some none := by decide +kernel
  exact ⟨none, markerStart, [.compat],
    ⟨hresolve, by cbv, eq_of_toOption hroots⟩, rfl, .refl _ _,
    by decide +kernel, by decide +kernel⟩

theorem installed_when_done_rehearsedMarker :
    ∃ s mid files after,
      rehearsedMarker.ComesTo (some [.compat]) { tree := firstSources, memory := {} } s [.compat]
        .compat mid ∧
      Run.build rehearsedMarker.runner s .compat mid = (.ok files, after) ∧
      after.stateOf .compat = .done ∧ hasHeader after.tree s.root "v" = .ok true := by
  have hfiles : (Run.build rehearsedMarker.runner (rehearsedMarker.site none) .compat
      markerStart).1.toOption = some [⟨.root, ["s", "include", "v"]⟩] := by decide +kernel
  have hbuild := eq_of_toOption hfiles
  have hin : ∀ l e, rehearsedMarker.catalog.find? l = some e → e.Inward := by
    intro l e he
    obtain rfl := entry_rehearsedMarker he
    exact ⟨nofun, fun name hname => by cases hname; decide +kernel, by decide +kernel⟩
  obtain ⟨hdone, e, plan, provided, prepared, invoked, hbuilt, -, hmarker, -⟩ :=
    installed_when_done (Rehearsal.confined fun _ => (reads_pure _).staysBelow) hin
      apart_rehearsedMarker comesTo_rehearsedMarker hbuild
  obtain rfl := entry_rehearsedMarker (Site.entry_ok hbuilt.entry)
  exact ⟨_, _, _, _, comesTo_rehearsedMarker, hbuild, hdone, (hmarker "v" rfl).1.2 (.inl (by decide +kernel))⟩

end Builder

end Sysroot

import Sysroot.Proofs.Install.Agreement
import Sysroot.Proofs.Plan.Determined
import Sysroot.Proofs.Run.Rehearsing
import Sysroot.Proofs.Run.Scratch

/-!
# Two runs side by side

Two rehearsals of the same builds are compared as they go on in different file trees: the files of
their sysroots are the same, and so is what their directories of builds hold at certain places
(`Twins`).  Each phase of a build keeps that when the places include those that it reads.  Since a
scratch directory that is cleared holds nothing in both, its places join them with every library
that is built (`Twins.of_built`).
-/

namespace Sysroot

open Effect Sysroot.Tree Sysroot.Tree.Action Sysroot.Install

variable {s : Site} {R B : Location} {k j : Nat} {t₀ t₀' t t' u u' : Tree}
  {S S' : List String → Prop} {l d : Library} {e : Catalog.Entry} {names : List String}

theorem Install.FilesAgree.of_sameFiles (h : SameFiles R t t') : FilesAgree R t t' := fun y n hn => by
  rcases h y with heq | ⟨hnone, hdir⟩
  · rw [heq]
  · simp [hnone, hdir, hn.symm]

/-- Whether runs of a site in two trees can be compared: in both the grounds are apart, and what is
read of the sources is the same, whatever happens in the sysroots and in the directories of
builds. -/
structure Site.Comparable (s : Site) (R B : Location) (k j : Nat) (t t' : Tree) : Prop where
  left : s.Apart t R B k j
  right : s.Apart t' R B k j
  inward : ∀ l e, s.catalog.find? l = some e → e.Inward
  sources : ∀ u u', Beside R B t u → Beside R B t' u' → ∀ l e, s.catalog.find? l = some e →
    s.SameSources e u u'
  headers : ∀ u u', Beside R B t u → Beside R B t' u' → ∀ l e directory,
    s.catalog.find? l = some e → e.publicHeaders = some directory →
    SameUnder (s.sourceDir e / directory) u u'

/-- Whether two trees, grown out of two others on firm ground, have the same files in the sysroot,
and the same in the directory of builds at the places that a predicate tells. -/
structure Twins (R B : Location) (t₀ t₀' : Tree) (S : List String → Prop) (t t' : Tree) : Prop where
  left : Grounded R B t₀ t
  right : Grounded R B t₀' t'
  files : FilesAgree R t t'
  builds : ∀ names, S names → t.get? (B ++ names) = t'.get? (B ++ names)

/-- The places below the build directory of a library. -/
def Library.Holds (l : Library) (names : List String) : Prop := [l.name ++ "-build"] <+: names

/-- Headers that are ready-made come from the sources. -/
theorem Site.headerPlan_fromSources {directory : String} {plan : HeaderPlan} (he : s.entry l = .ok e)
    (hdirectory : e.publicHeaders = some directory) (h : s.headerPlan t l = .ok plan) :
    s.FromSources e plan.headersDir plan.place := by
  obtain ⟨e', he', h⟩ := except_bind_ok h
  obtain rfl := Except.ok.inj (he.symm.trans he')
  rw [hdirectory] at h
  obtain rfl := readyHeaders_ok h
  exact ⟨directory, hdirectory, rfl, rfl⟩

theorem Site.Requests.standard {r : Request} (h : s.Requests l r) : r.Standard := by
  cases r with
  | stage source =>
    obtain ⟨-, -, -, hsections, -⟩ := h
    exact hsections
  | headers dir place => exact trivial

namespace Twins

theorem mono (h : Twins R B t₀ t₀' S t t') (hS : ∀ names, S' names → S names) :
    Twins R B t₀ t₀' S' t t' :=
  ⟨h.left, h.right, h.files, fun names hnames => h.builds names (hS names hnames)⟩

variable (hs : s.Comparable R B k j t₀ t₀') (h : Twins R B t₀ t₀' S t t')

include hs h

/-! ## What is read -/

/-- Twins have the same files below a directory of builds whose places are the same. -/
theorem sameUnder_builds (hne : names ≠ []) (hnames : Descending names)
    (hS : ∀ more, S (names ++ more)) : SameUnder (s.settings.buildRoot.within names) t t' :=
  sameUnder_within (h.left.seat_builds hs.left) h.left.links_builds (h.right.seat_builds hs.right)
    h.right.links_builds hne hnames fun more n _ => by rw [List.append_assoc, h.builds _ (hS more)]

/-- Twins have the same files below a directory of headers among the sources. -/
theorem sameUnder_sources {dir : Path} {place : String} (he : s.entry l = .ok e)
    (hfrom : s.FromSources e dir place) : SameUnder dir t t' := by
  obtain ⟨directory, hdirectory, rfl, -⟩ := hfrom
  exact hs.headers t t' h.left.beside h.right.beside l e directory (Site.entry_ok he) hdirectory

/-- Twins have the same headers. -/
theorem hasHeader_iff {m : String} (hm : Path.GoesDown m) :
    hasHeader t s.root m = .ok true ↔ hasHeader t' s.root m = .ok true := by
  have hfile : ∀ {x}, HasFile t (R ++ x) ↔ HasFile t' (R ++ x) := fun {x} =>
    exists₂_congr fun content executable => h.files x _ nofun
  rw [hasHeader, hasHeader, includeDir, hm.div_section (by decide),
    query_isFile_iff (h.left.seat_sysroot hs.left) h.left.links_sysroot (List.cons_ne_nil _ _)
      (hm.descending_section (by decide)),
    query_isFile_iff (h.right.seat_sysroot hs.right) h.right.links_sysroot (List.cons_ne_nil _ _)
      (hm.descending_section (by decide)), hfile]

/-! ## What is done -/

/-- What is done in both directories of builds alike keeps twins. -/
theorem of_work {α : Type} {x : Tree.Action α} {a a' : α}
    (hpoint : Pointwise s.settings.buildRoot B j x) (hstays : StaysBelow s.settings.buildRoot B j x)
    (hok : x t = (.ok a, u)) (hok' : x t' = (.ok a', u')) : Twins R B t₀ t₀' S u u' := by
  obtain ⟨hleft, hsame⟩ := h.left.of_changedBelow hs.left (hstays.of_apply hok fun _ _ => trivial)
  obtain ⟨hright, hsame'⟩ :=
    h.right.of_changedBelow hs.right (hstays.of_apply hok' fun _ _ => trivial)
  refine ⟨hleft, hright, fun y n hn => ?_, fun names hnames => ?_⟩
  · rw [hsame, hsame']
    exact h.files y n hn
  · exact hpoint.get?_eq (h.left.seat_builds hs.left) h.left.links_builds hok
      (h.right.seat_builds hs.right) h.right.links_builds hok' (h.builds names hnames)

/-- A request that is carried out in both keeps twins if it finds the same files. -/
theorem of_request {r : Request} {files files' : List Path} (hrequest : s.Requests l r)
    (hdirs : ∀ dir ∈ r.dirs, SameUnder dir t t') (hok : r.run s.root l t = (.ok files, u))
    (hok' : r.run s.root l t' = (.ok files', u')) : Twins R B t₀ t₀' S u u' := by
  have hseat := h.left.seat_sysroot hs.left
  have hseat' := h.right.seat_sysroot hs.right
  have haimed := hrequest.aimed hs.inward hs.left h.left
  have haimed' := hrequest.aimed hs.inward hs.right h.right
  obtain ⟨-, -, -, -, -, haround, -⟩ :=
    haimed.filled (sited_of_seat hseat) hseat.null h.left.links_sysroot hok
  obtain ⟨-, -, -, -, -, haround', -⟩ :=
    haimed'.filled (sited_of_seat hseat') hseat'.null h.right.links_sysroot hok'
  refine ⟨((hrequest.run_spec hs.inward hs.left h.left).2 files u hok).1,
    ((hrequest.run_spec hs.inward hs.right h.right).2 files' u' hok').1,
    haimed.filesAgree haimed' hrequest.standard hseat hseat' h.left.links_sysroot
      h.right.links_sysroot hok hok' h.files hdirs, fun names hnames => ?_⟩
  have hnot : R <+: B ++ names → B ++ names = R := fun hpre =>
    absurd hpre (not_below_of_apart hs.left.not_below hs.left.not_above)
  rw [(haround hseat).get? _ hnot, (haround' hseat').get? _ hnot, h.builds names hnames]

/-- Headers that are provided in both keep twins if these have the same header stages. -/
theorem of_provideHeaders {r : Rehearsal} (hr : r.Undisturbed) {dependent : Catalog.Entry}
    {b b' after after' : Bench Rehearsal.State}
    (hS : ∀ e, s.catalog.find? d = some e → e.publicHeaders = none →
      ∀ more, S ([e.library.name ++ "-build", "headers", "include"] ++ more))
    (hok : Run.provideHeaders r.runner s dependent d b = (.ok (), after))
    (hok' : Run.provideHeaders r.runner s dependent d b' = (.ok (), after'))
    (htree : b.tree = t ∧ b'.tree = t') :
    Twins R B t₀ t₀' S after.tree after'.tree := by
  obtain ⟨rfl, rfl⟩ := htree
  obtain ⟨e, he, hleft⟩ := Run.provideHeaders_rehearses hr hok
  obtain ⟨e', he', hright⟩ := Run.provideHeaders_rehearses hr hok'
  obtain rfl := Except.ok.inj (he.symm.trans he')
  have hinward := hs.inward d e (Site.entry_ok he)
  rcases hleft with ⟨hsame, hthere⟩ |
    ⟨m, plan, invoked, files, hm, hmissing, hplan, hinvoke, hinstall⟩
  all_goals rcases hright with ⟨hsame', hthere'⟩ |
    ⟨m', plan', invoked', files', hm', hmissing', hplan', hinvoke', hinstall'⟩
  · rw [hsame, hsame']
    exact h
  · rw [(h.hasHeader_iff hs (hinward.marker m' hm')).1 (hthere m' hm')] at hmissing'
    cases hmissing'
  · rw [(h.hasHeader_iff hs (hinward.marker m hm)).2 (hthere' m hm)] at hmissing
    cases hmissing
  · obtain rfl := Site.headerPlan_eq hplan hplan'
    obtain ⟨hplaces, hprovides⟩ := Site.headerPlan_contains he hinward hplan
    have hinside := fun i hi => Site.inside_of_at (hplaces i hi)
    have htwins : Twins R B t₀ t₀' S invoked invoked' :=
      h.of_work hs (Run.pointwise_invocations d hinside)
        (.forM fun i hi => Run.staysBelow_rehearse d (hinside i hi)) hinvoke hinvoke'
    refine htwins.of_request hs (r := .headers plan.headersDir plan.place) ⟨e, he, hprovides⟩
      (fun dir hdir => ?_) hinstall hinstall'
    obtain rfl := List.mem_singleton.1 hdir
    rcases hpublic : e.publicHeaders with _ | directory
    · rcases hprovides with ⟨directory, hdirectory, -⟩ | ⟨hstage, -⟩
      · rw [hpublic] at hdirectory
        cases hdirectory
      · rw [hstage, s.headerStageDir_eq, Path.div_name (by decide), Path.within_within]
        exact htwins.sameUnder_builds hs (List.cons_ne_nil _ _)
          (Plain.descending (plain_cons.2 ⟨Site.isName_build _, by decide⟩))
          (hS e (Site.entry_ok he) hpublic)
    · exact htwins.sameUnder_sources hs he (Site.headerPlan_fromSources he hpublic hplan)

/-- Headers of several libraries that are provided in both keep twins likewise. -/
theorem of_headers {r : Rehearsal} (hr : r.Undisturbed) {dependent : Catalog.Entry}
    {ds : List Library} {b b' after after' : Bench Rehearsal.State}
    (hS : ∀ d ∈ ds, ∀ e, s.catalog.find? d = some e → e.publicHeaders = none →
      ∀ more, S ([e.library.name ++ "-build", "headers", "include"] ++ more))
    (hok : ds.forM (Run.provideHeaders r.runner s dependent) b = (.ok (), after))
    (hok' : ds.forM (Run.provideHeaders r.runner s dependent) b' = (.ok (), after'))
    (htree : b.tree = t ∧ b'.tree = t') :
    Twins R B t₀ t₀' S after.tree after'.tree := by
  induction ds generalizing b b' t t' with
  | nil =>
    obtain ⟨rfl, rfl⟩ := htree
    cases hok
    cases hok'
    exact h
  | cons d ds ih =>
    obtain ⟨⟨⟩, b₁, hfirst, hrest⟩ := bind_ok hok
    obtain ⟨⟨⟩, b₁', hfirst', hrest'⟩ := bind_ok hok'
    exact ih (h.of_provideHeaders hs hr (hS d List.mem_cons_self) hfirst hfirst' htree)
      (fun d hd => hS d (List.mem_cons_of_mem _ hd)) hrest hrest' ⟨rfl, rfl⟩

/-- Twins in which scratch directories were cleared have the same in these too. -/
theorem of_prepareScratch {σ : Type} {plan : Plan} {b b' after after' : Bench σ}
    (hplan : s.Contains e plan) (hl : l ∈ s.settings.clobber)
    (hleft : Grounded R B t₀ after.tree) (hright : Grounded R B t₀' after'.tree)
    (hok : Run.prepareScratch s l plan b = (.ok (), after))
    (hok' : Run.prepareScratch s l plan b' = (.ok (), after'))
    (htree : b.tree = t ∧ b'.tree = t') :
    Twins R B t₀ t₀' (fun names => S names ∨ e.library.Holds names) after.tree after'.tree := by
  obtain ⟨rfl, rfl⟩ := htree
  have hget :=
    (Run.prepareScratch_ok hplan (h.left.seat_builds hs.left) h.left.links_builds hok).2
  have hget' :=
    (Run.prepareScratch_ok hplan (h.right.seat_builds hs.right) h.right.links_builds hok').2
  refine ⟨hleft, hright, fun y n hn => ?_, fun names hnames => ?_⟩
  · have hnot : ¬ B ++ [e.library.name ++ "-build"] <+: R ++ y := fun hpre =>
      not_below_of_apart hs.left.not_above hs.left.not_below ((List.prefix_append _ _).trans hpre)
    have hne : R ++ y ≠ B ++ [e.library.name ++ "-build"] := fun heq => hnot (heq ▸ List.prefix_rfl)
    have hstage : ¬ B ++ [e.library.name ++ "-build", "stage"] <+: R ++ y := fun hpre =>
      not_below_of_apart hs.left.not_above hs.left.not_below ((List.prefix_append _ _).trans hpre)
    have hneither := not_or.2 ⟨hstage, fun h : l ∈ s.settings.clobber ∧ _ => hnot h.2⟩
    rw [hget, hget', if_neg hne, if_neg hne, if_neg hneither, if_neg hneither]
    exact h.files y n hn
  · rw [hget, hget']
    split
    · rfl
    · split
      · rfl
      · next hnot =>
        rcases hnames with hnames | hnames
        · exact h.builds names hnames
        · exact absurd (.inr ⟨hl, (List.prefix_append_right_inj B).2 hnames⟩) hnot

/-- Libraries that are built in both get the same plan and keep twins, which from then on have the
same in the build directory of the library. -/
theorem of_built {r : Rehearsal} (hr : r.Undisturbed) {e' : Catalog.Entry} {plan plan' : Plan}
    {b b' provided provided' prepared prepared' invoked invoked' after after' : Bench Rehearsal.State}
    {files files' : List Path} (hl : l ∈ s.settings.clobber)
    (hbuilt : Run.Built r.runner s l e plan b provided prepared invoked after files)
    (hbuilt' : Run.Built r.runner s l e' plan' b' provided' prepared' invoked' after' files')
    (hheaders : ∀ d ∈ e.headerRequires, ∀ e, s.catalog.find? d = some e → e.publicHeaders = none →
      ∀ more, S ([e.library.name ++ "-build", "headers", "include"] ++ more))
    (hobjects : ∀ d ∈ e.embedObjects, ∀ more, S ([d.name ++ "-build", "obj"] ++ more))
    (htree : b.tree = t ∧ b'.tree = t') :
    plan = plan' ∧
      Twins R B t₀ t₀' (fun names => S names ∨ e.library.Holds names) after.tree after'.tree := by
  obtain ⟨rfl, rfl⟩ := htree
  obtain rfl := Except.ok.inj (hbuilt.entry.symm.trans hbuilt'.entry)
  have he := hbuilt.entry
  have hprovided : Twins R B t₀ t₀' S provided.tree provided'.tree :=
    h.of_headers hs hr hheaders hbuilt.provides hbuilt'.provides ⟨rfl, rfl⟩
  have hobjects' : s.SameObjects e provided.tree provided'.tree := by
    intro d hd paths paths' hpaths hne hpaths' hne'
    rw [s.objectDir_eq] at hpaths hpaths'
    exact (hprovided.left.seat_builds hs.left).select_eq hprovided.left.links_builds
      (hprovided.right.seat_builds hs.right) hprovided.right.links_builds (List.cons_ne_nil _ _)
      (Plain.descending (plain_cons.2 ⟨Site.isName_build d, by decide⟩))
      (fun more => hprovided.builds _ (hobjects d hd more)) hpaths hne hpaths' hne'
  obtain rfl : plan = plan' := Site.plan_eq he
    (hs.sources _ _ hprovided.left.beside hprovided.right.beside l e (Site.entry_ok he)) hobjects'
    hbuilt.plans hbuilt'.plans
  refine ⟨rfl, ?_⟩
  have hcontains : s.Contains e plan :=
    Site.plan_contains he (hs.inward l e (Site.entry_ok he)) hbuilt.plans
  obtain ⟨-, hleft, -⟩ := hbuilt.grounded hs.left hr.confined hs.inward h.left
  obtain ⟨-, hright, -⟩ := hbuilt'.grounded hs.right hr.confined hs.inward h.right
  have hprepared : Twins R B t₀ t₀' (fun names => S names ∨ e.library.Holds names) prepared.tree
      prepared'.tree :=
    hprovided.of_prepareScratch hs hcontains hl hleft hright hbuilt.prepares hbuilt'.prepares
      ⟨rfl, rfl⟩
  have hinvoked := hprepared.of_work hs (Run.pointwise_invocations l hcontains.invocations)
    (.forM fun i hi => Run.staysBelow_rehearse l (hcontains.invocations i hi))
    (Run.invocations_rehearse hr hbuilt.invokes) (Run.invocations_rehearse hr hbuilt'.invokes)
  refine hinvoked.of_request hs (hbuilt.requests hs.inward) (fun dir hdir => ?_) hbuilt.installs
    hbuilt'.installs
  rcases List.mem_append.1 hdir with hdir | hdir
  · obtain ⟨⟨dir', place⟩, hplan, rfl⟩ :=
      Option.map_eq_some_iff.1 (Option.mem_def.1 (Option.mem_toList.1 hdir))
    obtain ⟨headers, hheaders, heq⟩ := Option.map_eq_some_iff.1 hplan
    cases heq
    exact hinvoked.sameUnder_sources hs he (hcontains.headers headers hheaders)
  · obtain ⟨name, hname, rfl⟩ := List.mem_map.1 hdir
    have hplain : isName name = true := (section_of_standard hname).2
    rw [show (Run.source plan).stage = plan.stageDir from rfl, hcontains.stageDir, s.stageDir_eq,
      Path.div_name hplain, Path.within_within]
    exact hinvoked.sameUnder_builds hs (List.cons_ne_nil _ _)
      (Plain.descending (plain_cons.2 ⟨Site.isName_build _, plain_cons.2 ⟨by decide,
        plain_cons.2 ⟨hplain, plain_nil⟩⟩⟩)) fun more => .inr (List.prefix_append _ _)

end Twins

end Sysroot

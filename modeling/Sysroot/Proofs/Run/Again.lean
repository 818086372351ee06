import Sysroot.Proofs.Fingerprint.Installed
import Sysroot.Proofs.Run.Resuming

/-!
# Running a build again

A run that is done can be run again on the tree that it left, by a new builder with the same inputs, and
leaves the sysroot as it is (`Builder.run_again`).  This takes that what is delivered in one step is not
above what another one delivers, nor above a file that a library relies on, and that there is room to set
aside what is replaced.  What every build left lasts to the end of the run (`Builder.InTurn.lasting`), so
that each can be repeated when its turn comes again (`Builder.InTurn.again`).  A marker that was there
before the first run and that it removes keeps the second one from being done (`Builder.run_not_again`).
-/

namespace Sysroot

open Effect Sysroot.Tree Sysroot.Tree.Action Sysroot.Install

variable {s : Site} {R B : Location} {k j : Nat} {t₀ t : Tree} {r : Rehearsal}
  {b : Builder Rehearsal.State} {request : Option (List Library)} {order front built ls : List Library}
  {l : Library} {d d' : Delivery}

namespace Builder

section

variable {σ : Type} {b : Builder σ} {start mid last : Bench σ}

/-! ## Parts of a run -/

/-- What a run delivers. -/
def Delivers (b : Builder σ) (request : Option (List Library)) (bench : Bench σ) (d : Delivery) : Prop :=
  ∃ order platformFile start, b.Starts request bench order platformFile start ∧
    b.DeliversInTurn (b.site platformFile) order start d

theorem InTurn.append (h : b.InTurn s front start mid) (h' : b.InTurn s ls mid last) :
    b.InTurn s (front ++ ls) start last := by
  induction h with
  | nil => exact h'
  | cons hgoing hbuild _ ih => exact .cons hgoing hbuild (ih h')

theorem InTurn.split (h : b.InTurn s (front ++ ls) start last) :
    ∃ mid, b.InTurn s front start mid ∧ b.InTurn s ls mid last := by
  induction front generalizing start with
  | nil => exact ⟨start, .nil start, h⟩
  | cons l front ih =>
    obtain _ | ⟨hgoing, hbuild, hrest⟩ := h
    obtain ⟨mid, hfront, hls⟩ := ih hrest
    exact ⟨mid, .cons hgoing hbuild hfront, hls⟩

/-- What is delivered after some builds is delivered along with them. -/
theorem DeliversInTurn.of_append (hfront : b.InTurn s front start mid) (h : b.DeliversInTurn s ls mid d) :
    b.DeliversInTurn s (front ++ ls) start d := by
  obtain ⟨front', l, rest, mid', rfl, hfront', hdelivers⟩ := h
  exact ⟨front ++ front', l, rest, mid', (List.append_assoc _ _ _).symm, hfront.append hfront', hdelivers⟩

/-- Only a library that is built is delivered as a whole. -/
theorem DeliversInTurn.mem (h : b.DeliversInTurn s ls start d) (hwhole : d.request.portion = .whole) :
    d.library ∈ ls := by
  obtain ⟨front, l, rest, mid, rfl, -, hdelivers⟩ := h
  cases hdelivers with
  | headers => cases hwhole
  | stage => simp

end

/-! ## What lasts to the end -/

variable {start last : Bench Rehearsal.State}

/-- Whether nothing that is delivered while libraries are built in turn is above what is delivered in
another step, or above a file that one of the libraries relies on, and there is room to set aside what is
delivered with a stage. -/
structure Unhindered (b : Builder Rehearsal.State) (s : Site) (ls : List Library)
    (bench : Bench Rehearsal.State) : Prop where
  apart : ∀ d d', b.DeliversInTurn s ls bench d → b.DeliversInTurn s ls bench d' → d ≠ d' →
    ∀ x n y n', d.Sends x n → d'.Sends y n' → x <+: y → x = y
  relied : ∀ d, b.DeliversInTurn s ls bench d → ∀ l ∈ ls, ∀ e, s.catalog.find? l = some e →
    ∀ x n y, d.Sends x n → s.catalog.ReliesOn e y → x <+: y → x = y
  room : ∀ d, b.DeliversInTurn s ls bench d → d.request.portion = .whole → ∀ x n, d.Sends x n →
    ∀ a, IsAside d.library a → Fits s.root (stash a ++ x)

variable (hs : s.Apart t₀ R B k j) (hr : r.Undisturbed) (hrunner : b.runner = r.runner)
  (hin : ∀ l e, s.catalog.find? l = some e → e.Inward)

include hs hr hrunner hin

/-- The ground stays firm while libraries are built in turn. -/
theorem InTurn.grounded (hturns : b.InTurn s ls start last) (hground : Grounded R B t₀ start.tree) :
    Grounded R B t₀ last.tree := by
  induction hturns with
  | nil => exact hground
  | cons _ hbuild _ ih =>
    rw [hrunner] at hbuild
    obtain ⟨e, plan, _, _, _, hbuilt⟩ := Run.build_ok hbuild
    exact ih (hbuilt.grounded_after hs hr hin hground)

variable (hkeys : ∀ l e, s.catalog.find? l = some e → e.library = l) (hsteady : s.Steady R B t₀)

/-- Whether what the build of a library left lasts to a tree, after which others were built. -/
def Lasts (r : Rehearsal) (s : Site) (R B : Location) (t₀ : Tree) (rest : List Library) (l : Library)
    (t : Tree) : Prop :=
  ∃ e plan bench provided prepared invoked after files,
    Run.Built r.runner s l e plan bench provided prepared invoked after files ∧
    Grounded R B t₀ bench.tree ∧ Lasting s R B (· ∈ rest) l e plan provided.tree invoked.tree t ∧
    ∀ x n, (Request.stage (Run.source plan)).Sends invoked.tree x n → ∀ a, IsAside l a →
      Fits s.root (stash a ++ x)

include hkeys

/-- Libraries that are built in turn leave the platform file as it is. -/
theorem InTurn.spares (hturns : b.InTurn s ls start last) (hground : Grounded R B t₀ start.tree) :
    Spares R B (fun _ => True) start.tree last.tree := by
  induction hturns with
  | nil => exact .refl R B _ _
  | @cons rest bench next last l files _ hbuild _ ih =>
    rw [hrunner] at hbuild
    obtain ⟨e, plan, provided, prepared, invoked, hbuilt⟩ := Run.build_ok hbuild
    have hprovide : Spares R B (fun _ => True) bench.tree provided.tree :=
      Run.headers_spares (b := (Work.enter l .planning bench).2) hs hr hin hground hbuilt.provides _
    obtain ⟨hinvoke, hinstall⟩ := hbuilt.spares hs hr hin hground
      (hkeys l e (Site.entry_ok hbuilt.entry)) fun _ => True
    exact ((hprovide.trans (hinvoke.mono fun _ _ => trivial)).trans hinstall).trans
      (ih (hbuilt.grounded_after hs hr hin hground))

include hsteady

/-- What every build left lasts to the end. -/
theorem InTurn.lasting {rest : List Library} (hturns : b.InTurn s (front ++ l :: rest) start last)
    (hnodup : (front ++ l :: rest).Nodup) (hfree : b.Unhindered s (front ++ l :: rest) start)
    (hground : Grounded R B t₀ start.tree) : Lasts r s R B t₀ rest l last.tree := by
  obtain ⟨mid, hfront, hturn⟩ := hturns.split
  have hmid := hfront.grounded hs hr hrunner hin hground
  obtain _ | ⟨hgoing, hbuild, hrest⟩ := hturn
  rename_i after files
  have hbuild' := hbuild
  rw [hrunner] at hbuild'
  obtain ⟨e, plan, provided, prepared, invoked, hbuilt⟩ := Run.build_ok hbuild'
  have hfind := Site.entry_ok hbuilt.entry
  have hl : l ∉ rest := (List.nodup_cons.1 (List.nodup_append.1 hnodup).2.1).1
  have hmem : l ∈ front ++ l :: rest := by simp
  have hdelivers : b.DeliversInTurn s (front ++ l :: rest) start
      ⟨l, .stage (Run.source plan), invoked.tree, after.tree⟩ :=
    ⟨front, l, rest, mid, rfl, hfront, by rw [hrunner]; exact .stage hbuilt⟩
  have hlasting := hbuilt.lasting hs hr hin hmid (hkeys l e hfind) fun x n hx y hy =>
    hfree.relied _ hdelivers l hmem e hfind x n y hx hy
  refine ⟨e, plan, mid, provided, prepared, invoked, after, files, hbuilt, hmid, ?_, fun x n hx =>
    hfree.room _ hdelivers rfl x n hx⟩
  refine (Lasting.of_inTurn hs hr hin hsteady hbuilt hmid hkeys hrunner hl (fun d hd x n hx => ?_) hrest
    (hbuilt.grounded_after hs hr hin hmid) hlasting).mono fun d hd => hd.resolve_right id
  have hd' : b.DeliversInTurn s (front ++ l :: rest) start d := by
    have := DeliversInTurn.of_append (hfront.append (.cons hgoing hbuild (.nil _))) hd
    rwa [List.append_assoc] at this
  refine ⟨fun y n' hy => hfree.apart d _ hd' hdelivers ?_ x n y n' hx hy,
    fun y hy => hfree.relied d hd' l hmem e hfind x n y hx hy⟩
  rintro rfl
  exact hl (hd.mem rfl)

omit hs hr hrunner hin hkeys hsteady

/-! ## The builds again -/

/-- Libraries that were built in turn can be built in turn again in a tree that resembles what was left of
their builds. -/
theorem InTurn.again {bench : Bench Rehearsal.State} (hs : s.Apart t₀ R B k j) (hfaultless : r.Faultless)
    (hrunner : b.runner = r.runner) (hin : ∀ l e, s.catalog.find? l = some e → e.Inward)
    (hkeys : ∀ l e, s.catalog.find? l = some e → e.library = l) (hsteady : s.Steady R B t₀)
    (hcheck : s.catalog.check = .ok ()) (hfirst : Catalog.PrerequisitesFirst s.catalog order order)
    (hnodup : order.Nodup) (hleft : Grounded R B t₀ t)
    (hlasts : ∀ front l rest, order = front ++ l :: rest → Lasts r s R B t₀ rest l t)
    (horder : order = built ++ ls) (hcalm : bench.Calm) (hground : Grounded R B t₀ bench.tree)
    (hresembles : Resembles R B (· ∈ built) t bench.tree) :
    ∃ last, b.InTurn s ls bench last ∧ last.Calm ∧ Grounded R B t₀ last.tree ∧
      Resembles R B (· ∈ order) t last.tree := by
  induction ls generalizing built bench with
  | nil =>
    rw [List.append_nil] at horder
    exact ⟨bench, .nil bench, hcalm, hground, horder ▸ hresembles⟩
  | cons l rest ih =>
    obtain ⟨e, plan, bench₁, provided, prepared, invoked, after, files, hbuilt, hground₁, hlasting, hroom⟩ :=
      hlasts built l rest horder
    have hfind := Site.entry_ok hbuilt.entry
    subst horder
    obtain ⟨-, hnodup', hapart⟩ := List.nodup_append.1 hnodup
    have hnot : l ∉ rest := (List.nodup_cons.1 hnodup').1
    -- the libraries whose objects are embedded come earlier in the order or are not in it
    have hembeds : ∀ d ∈ e.embedObjects, d ≠ l ∧ d ∉ rest := by
      intro d hd
      have hrequires : d ∈ s.catalog.requires l := by
        rw [Catalog.requires, hfind]
        exact (Catalog.check_eq_ok_iff.1 hcheck).embedded l e hfind d hd
      have hlater : d ∉ l :: rest := fun hin' =>
        hapart d (hfirst built l rest rfl d hrequires (List.mem_append_right _ hin')) d hin' rfl
      exact ⟨fun heq => hlater (heq ▸ List.mem_cons_self), fun hin' => hlater (List.mem_cons_of_mem _ hin')⟩
    have hrepeats : Run.Repeats r s R B t₀ l e plan bench₁ provided prepared invoked after files t bench.tree
        (· ∈ rest) (· ∈ built) :=
      ⟨hbuilt, hground₁, hlasting, hnot, hembeds, hroom, hleft, hground, hresembles, fun hin' =>
        hapart l hin' l List.mem_cons_self rfl⟩
    obtain ⟨files', next, hbuild, hcalm', hground', hresembles'⟩ :=
      hrepeats.builds hs hin (hkeys l e hfind) hsteady hfaultless rfl hcalm
    obtain ⟨last, hrest, hends⟩ := ih (List.append_cons built l rest) hcalm' hground'
      (hresembles'.mono fun d hd => by
        rw [List.mem_append, List.mem_singleton]
        exact hd.symm)
    exact ⟨last, .cons hcalm.going (by rw [hrunner]; exact hbuild) hrest, hends⟩

/-! ## The run again -/

/-- What a site reads of its sources does not depend on its platform file. -/
theorem steady_site (h : (b.site none).Steady R B t) (platformFile : Option Path) :
    (b.site platformFile).Steady R B t where
  answers u u' hu hu' hsame l e he :=
    have hanswers := h.answers u u' hu hu' hsame l e he
    ⟨hanswers.source, hanswers.headers, hanswers.files⟩
  headers := h.headers
  surveys := h.surveys

/-- What is written when a run is done spares what the builds left. -/
theorem spares_writeReport {t' : Tree}
    (hsame : ∀ m, (∀ name ∈ reports, m ≠ B ++ [name]) → t'.get? m = t.get? m) :
    Spares R B (fun _ => False) t t' := by
  refine ⟨fun m _ hB => hsame m fun name _ heq => hB (heq ▸ List.prefix_append B [name]),
    fun d hdir => (hsame _ fun name hname heq => ?_).trans hdir, fun names hnames => hsame _ fun name hname heq => ?_⟩
  · have heq := (List.cons.inj (List.append_cancel_left heq)).1
    exact build_not_mem_reports d (heq ▸ hname)
  · have heq := List.append_cancel_left heq
    cases hnames with
    | build => simp at heq
    | platform y =>
      obtain ⟨rfl, -⟩ := List.cons.inj heq
      simp [reports] at hname

/-- A run that is done can be run again on the tree that it left, with the same inputs, and is done again
without a change of the sysroot.  No failure is injected in either run; the sysroot, the directory of
builds and the sources are apart from each other and have no links.  What one step of the first run
delivered is not above what another one delivered, nor above a file that the check of prerequisites asks
for on behalf of a library of the run; and the paths at which what is installed with a stage is set aside
are short enough. -/
theorem run_again {bench bench' again : Bench Rehearsal.State} {result : RunResult}
    (hrunner : b.runner = r.runner) (hr : r.Faultless)
    (hin : ∀ l e, b.catalog.find? l = some e → e.Inward ∧ e.library = l)
    (hs : (b.site none).Apart bench.tree R B k j) (hsteady : (b.site none).Steady R B bench.tree)
    (h : b.run request bench = (.ok result, bench')) (hdone : result.state = .done)
    (hapart : ∀ d d', b.Delivers request bench d → b.Delivers request bench d' → d ≠ d' →
      ∀ x n y n', d.Sends x n → d'.Sends y n' → x <+: y → x = y)
    (hrelied : ∀ d, b.Delivers request bench d → ∀ l ∈ result.order, ∀ e, b.catalog.find? l = some e →
      ∀ x n y, d.Sends x n → b.catalog.ReliesOn e y → x <+: y → x = y)
    (hroom : ∀ d, b.Delivers request bench d → d.request.portion = .whole → ∀ x n, d.Sends x n →
      ∀ a, IsAside d.library a → Fits b.settings.sysrootDir (stash a ++ x))
    (hagain : again.tree = bench'.tree) (hcalm : again.Calm) :
    ∃ result' again', b.run request again = (.ok result', again') ∧ result'.state = .done ∧
      result'.order = result.order ∧ ∀ y, again'.tree.get? (R ++ y) = bench'.tree.get? (R ++ y) := by
  obtain ⟨platformFile, start, finish, hstarts, hturns, r₀, journal, hok, hreport⟩ := inTurn_of_done h hdone
  obtain ⟨hnodup, hentries, hfirst⟩ := resolve_spec hstarts.resolved
  obtain ⟨_, hcheck, -⟩ := except_bind_ok hstarts.resolved
  have hs' := apart_site hs platformFile
  have hin' := fun l e he => (hin l e he).1
  have hkeys := fun l e he => (hin l e he).2
  -- the first run up to its report
  have hroots : b.prepareRoots result.order bench.tree = (.ok platformFile, start.tree) :=
    (Work.onTree_eq hstarts.roots).1
  obtain ⟨hstart, -, -⟩ := prepareRoots_grounded hs hroots
  have hfinish := hturns.grounded hs' hr.toUndisturbed hrunner hin' hstart
  obtain ⟨⟨f, hf⟩, hfits, hfiles, hothers⟩ :=
    writeReport_room (hfinish.seat_builds hs') hfinish.links_builds hok hreport
  obtain ⟨hleft, hsame⟩ := hfinish.of_changedBelow hs'
    ((staysBelow_writeReport b r₀ journal).of_apply hreport fun _ _ => trivial)
  have hdelivers : ∀ d, b.DeliversInTurn (b.site platformFile) result.order start d →
      b.Delivers request bench d := fun d hd => ⟨_, platformFile, start, hstarts, hd⟩
  have hfree : b.Unhindered (b.site platformFile) result.order start :=
    ⟨fun d d' hd hd' => hapart d d' (hdelivers d hd) (hdelivers d' hd'),
      fun d hd => hrelied d (hdelivers d hd), fun d hd => hroom d (hdelivers d hd)⟩
  have hspares : Spares R B (fun _ => False) finish.tree bench'.tree := spares_writeReport hothers
  have hlasts : ∀ front l rest, result.order = front ++ l :: rest →
      Lasts r (b.site platformFile) R B bench.tree rest l bench'.tree := by
    intro front l rest horder
    rw [horder] at hturns hnodup hfree
    obtain ⟨e, plan, bench₁, provided, prepared, invoked, after, files, hbuilt, hground₁, hlasting, hroom'⟩ :=
      hturns.lasting hs' hr.toUndisturbed hrunner hin' hkeys (steady_site hsteady platformFile) hnodup hfree
        hstart
    exact ⟨e, plan, bench₁, provided, prepared, invoked, after, files, hbuilt, hground₁,
      hlasting.of_spares hs' hin' hfinish hleft hsame (hspares.mono fun _ => False.elim),
      hroom'⟩
  -- the second run up to its report
  have hdirs : ∀ name ∈ sysrootDirs, bench'.tree.get? (R ++ [name]) = some .dir := by
    intro name hname
    cases horder : result.order with
    | nil =>
      rw [horder] at hturns
      cases hturns
      exact (hsame _).trans (prepareRoots_dirs hs hroots name hname)
    | cons l rest =>
      obtain ⟨e, plan, bench₁, provided, prepared, invoked, after, files, -, -, hlasting, -⟩ :=
        hlasts [] l rest horder
      exact hlasting.stands.dirs name hname
  have hplatform : ∀ y, bench'.tree.get? (B ++ "cmake-modules" :: y) =
      start.tree.get? (B ++ "cmake-modules" :: y) := fun y =>
    (hspares.same _ (.platform y)).trans
      ((hturns.spares hs' hr.toUndisturbed hrunner hin' hkeys hstart).same _ (.platform y))
  have hshort : Fits b.settings.buildRoot [] :=
    Fits.of_append (show Fits _ ([] ++ ["sysroot-digests.cbor"]) from hfits) (by decide)
  obtain ⟨u, hroots', hground, hresembles⟩ :=
    prepareRoots_again hs hroots hleft hdirs hshort hplatform
  rw [← hagain] at hroots'
  have hcalm' : (b.prepared result.order again u).Calm := ⟨hcalm.going, hcalm.memory⟩
  obtain ⟨last, hturns', hcalm'', hlast, hresembles'⟩ := InTurn.again hs' hr hrunner hin' hkeys
    (steady_site hsteady platformFile) hcheck hfirst hnodup hleft hlasts (List.nil_append _).symm hcalm'
    hground (hresembles.mono fun _ => False.elim)
  have hsysroot : ∀ y, last.tree.get? (R ++ y) = bench'.tree.get? (R ++ y) := hresembles'.sysroot
  have hf' : b.fingerprint last.tree = .ok f := by
    rw [← hf, fingerprint, fingerprint]
    exact Fingerprint.ofTree_of_same (hfinish.seat_sysroot hs') (hlast.seat_sysroot hs')
      hfinish.links_sysroot hlast.links_sysroot (fun y => (hsysroot y).trans (hsame y)) _
  have hfree' : ∀ name ∈ reports, last.tree.get? (B ++ [name]) ≠ some .dir := by
    intro name hname
    rw [hresembles'.builds [name] (List.cons_ne_nil _ _) ?_ ?_]
    · exact hfiles name hname
    · rintro heq
      cases heq
      simp [reports] at hname
    · intro d _ hpre
      obtain ⟨rfl, -⟩ := List.cons_prefix_cons.1 hpre
      exact build_not_mem_reports d hname
  obtain ⟨result', again', hrun, hdone', horder', r₁, journal', hreport'⟩ :=
    run_of_inTurn hstarts.resolved hstarts.validated hroots' hturns' hcalm''.going fun r₁ journal' =>
      writeReport_of hf' (hlast.seat_builds hs') hlast.links_builds hfits
        (hfree' _ (by simp [reports])) (hfree' _ (by simp [reports])) r₁ journal'
  obtain ⟨-, hsame'⟩ := hlast.of_changedBelow hs'
    ((staysBelow_writeReport b r₁ journal').of_apply hreport' fun _ _ => trivial)
  exact ⟨result', again', hrun, hdone', horder', fun y => (hsame' y).trans (hsysroot y)⟩

/-- A library of headers with a marker. -/
def markedHeaders (marker : String) : Catalog.Entry :=
  { headersOf .libc "libc" [] with markerHeader := some marker }

/-- Two libraries of headers: one with a marker, and one that may require the former or its headers. -/
def besideMarker (marker : String) (requires headerRequires : List Library) : Builder Rehearsal.State where
  settings := headerChain.settings
  toolchain := headerChain.toolchain
  catalog := .ofList [(.libc, markedHeaders marker),
    (.zlib, { headersOf .zlib "zlib" requires with headerRequires := headerRequires })]
  runner := ({} : Rehearsal).runner

section

variable {marker : String} {requires headerRequires : List Library} {e : Catalog.Entry}
  {platformFile : Option Path} (hmarker : Path.GoesDown marker) (hlinks : NoLinks t [])
  (hsources : t.get? ["src"] = some .dir)
  (he : (besideMarker marker requires headerRequires).catalog.find? l = some e)

section

include he

theorem entry_besideMarker : l = .libc ∧ e = markedHeaders marker ∨
    l = .zlib ∧ e = { headersOf .zlib "zlib" requires with headerRequires := headerRequires } := by
  have hmem : (l, e) ∈ (besideMarker marker requires headerRequires).catalog.pairs :=
    OrderedMap.mem_pairs_iff.2 he
  have hpairs : (besideMarker marker requires headerRequires).catalog.pairs = [(.libc, markedHeaders marker),
      (.zlib, { headersOf .zlib "zlib" requires with headerRequires := headerRequires })] := rfl
  rwa [hpairs, List.mem_cons, List.mem_singleton, Prod.mk.injEq, Prod.mk.injEq] at hmem

/-- All of them are headers of the same kind. -/
theorem headers_besideMarker : (l = .libc ∨ l = .zlib) ∧ e.library = l ∧ e.source = l.name ∧
    e.publicHeaders = some "include" ∧ e.headerPrefix = "" ∧ e.sources = [] ∧ e.archive = none := by
  rcases entry_besideMarker he with ⟨rfl, rfl⟩ | ⟨rfl, rfl⟩
  · exact ⟨.inl rfl, rfl, rfl, rfl, rfl, rfl, rfl⟩
  · exact ⟨.inr rfl, rfl, rfl, rfl, rfl, rfl, rfl⟩

include hmarker in
theorem inward_besideMarker : e.Inward := by
  obtain ⟨-, -, -, -, hheaderPlace, -, harchive⟩ := headers_besideMarker he
  refine ⟨fun a ha => ?_, fun m hm => ?_, hheaderPlace ▸ by decide +kernel⟩
  · rw [harchive] at ha
    cases ha
  · rcases entry_besideMarker he with ⟨-, rfl⟩ | ⟨-, rfl⟩
    · cases hm
      exact hmarker
    · cases hm

end

include hlinks hsources

/-- In trees without links in which there are sources, the three places are apart from each other. -/
theorem grounds_besideMarker :
    ((besideMarker marker requires headerRequires).site none).Apart t ["s"] ["build"] linkBudget linkBudget ∧
      ((besideMarker marker requires headerRequires).site none).Sourced ["s"] ["build"] ["src"] t := by
  have hnames : ∀ l : Library, l = .libc ∨ l = .zlib → Path.GoesDown l.name ∧
      headerChain.settings.sourcesDir / l.name / "include" =
        Path.within ⟨.root, []⟩ ["src", l.name, "include"] ∧ Plain ["src", l.name, "include"] ∧
      (¬ ["s"] <+: ["src", l.name, "include"] ∧ ¬ ["src", l.name, "include"] <+: ["s"]) ∧
      ¬ ["build"] <+: ["src", l.name, "include"] ∧ ¬ ["src", l.name, "include"] <+: ["build"] := by
    rintro l (rfl | rfl) <;> decide +kernel
  constructor
  · refine Site.apart_of_plain (L := []) (fun t' _ => seat_root t') rfl rfl (by decide +kernel)
      (by decide) (by decide) hlinks fun l e directory he hdirectory => ?_
    obtain ⟨hl, -, hsource, hheaders, -⟩ := headers_besideMarker he
    obtain rfl := Option.some.inj (hheaders.symm.trans hdirectory)
    rw [Site.sourceDir, hsource]
    exact ⟨_, (hnames l hl).2⟩
  · have hplain : Plain ([] ++ ["src"]) := by decide +kernel
    refine Site.Sourced.of_plain (L := []) (fun u _ => seat_root u) rfl hplain
      (by decide +kernel) hsources (hlinks.within _) (by decide) (by decide) fun l e he => ?_
    obtain ⟨hl, -, hsource, hheaders, -, hpatterns, -⟩ := headers_besideMarker he
    refine ⟨hsource ▸ (hnames l hl).1, fun directory hdirectory => ?_, fun text htext => ?_⟩
    · obtain rfl := Option.some.inj (hheaders.symm.trans hdirectory)
      decide +kernel
    · rw [hpatterns] at htext
      cases htext

include he in
/-- The headers of either are those that are among the sources. -/
theorem beneath_besideMarker {u : Tree} {p : List String} {n : Node} (hu : Beside ["s"] ["build"] t u)
    (hbeneath : Beneath u
      (((besideMarker marker requires headerRequires).site platformFile).sourceDir e / "include") p n) :
    p ≠ [] ∧ t.get? (["src", l.name, "include"] ++ p) = some n := by
  obtain ⟨-, -, hne, -⟩ := id hbeneath
  obtain ⟨hl, -, hsource, hheaders, -⟩ := headers_besideMarker he
  have hget := (grounds_besideMarker hlinks hsources).2.get?_of_beneath hu he hheaders hbeneath
  have hparts : (Path.ofText e.source).parts ++ (Path.ofText "include").parts = [l.name, "include"] := by
    rw [hsource]
    rcases hl with rfl | rfl <;> decide +kernel
  rw [hparts] at hget
  exact ⟨hne, hget⟩

include hmarker in
/-- What is delivered when the library without a marker is built alone. -/
theorem sends_besideMarker {start : Bench Rehearsal.State} {x : List String} {n : Node}
    (hground : Grounded ["s"] ["build"] t start.tree) (horder : order = [.zlib])
    (h : (besideMarker marker requires headerRequires).DeliversInTurn
      ((besideMarker marker requires headerRequires).site platformFile) order start d)
    (hx : d.Sends x n) :
    ∃ p n', x = "include" :: p ∧ p ≠ [] ∧
      (d.request.portion = .headers ∧ .libc ∈ headerRequires ∧
          t.get? (["src", "libc", "include"] ++ p) = some n' ∨
        d.request.portion = .whole ∧ d.library = .zlib ∧
          t.get? (["src", "zlib", "include"] ++ p) = some n') := by
  obtain ⟨front, l, rest, mid, hsplit, hfront, hd⟩ := h
  obtain ⟨rfl, rfl, rfl⟩ : front = [] ∧ l = .zlib ∧ rest = [] := by
    cases front <;> simp_all
  cases hfront
  have hs : ((besideMarker marker requires headerRequires).site platformFile).Apart t ["s"] ["build"]
      linkBudget linkBudget := apart_site (grounds_besideMarker hlinks hsources).1 platformFile
  have hin : ∀ l e, (besideMarker marker requires headerRequires).catalog.find? l = some e → e.Inward :=
    fun l e he => inward_besideMarker hmarker he
  have hr : ({} : Rehearsal).Undisturbed := ⟨fun _ => rfl, rfl⟩
  have hplace : (Path.ofText "").parts = [] := by decide +kernel
  have hbefore := (Run.Delivers.grounded (r := {}) hs hr hin hground hd).2.beside
  cases hd with
  | @headers e e' d front rest mid invoked m plan files t he hsplit hfront he' hm hmissing hplan =>
    have hentry := Site.entry_ok he'
    obtain ⟨-, -, -, hheaders, hheaderPlace, -⟩ := headers_besideMarker hentry
    obtain rfl : d = .libc := by
      obtain ⟨h, -⟩ | ⟨-, rfl⟩ := entry_besideMarker hentry
      · exact h
      · cases hm
    obtain ⟨directory, hdirectory, hdir, hheaderPlace'⟩ := Site.headerPlan_fromSources he' hheaders hplan
    obtain rfl := Option.some.inj (hheaders.symm.trans hdirectory)
    obtain ⟨p, rfl, hbeneath⟩ := hx
    rw [hdir] at hbeneath
    obtain ⟨hne, hget⟩ := beneath_besideMarker hlinks hsources hentry hbefore hbeneath
    have hrequires : Library.libc ∈ headerRequires := by
      obtain ⟨h, -⟩ | ⟨-, rfl⟩ := entry_besideMarker (Site.entry_ok he)
      · cases h
      · rw [show headerRequires = front ++ .libc :: rest from hsplit]
        simp
    rw [hheaderPlace', hheaderPlace, hplace]
    exact ⟨p, _, rfl, hne, .inl ⟨rfl, hrequires, hget⟩⟩
  | @stage e plan provided prepared invoked after files hbuilt =>
    have hentry := Site.entry_ok hbuilt.entry
    obtain ⟨-, -, -, hheaders, hheaderPlace, -, harchive⟩ := headers_besideMarker hentry
    rcases hbuilt.sends_cases hs hr hin hground hx with
      ⟨hstaged, -⟩ | ⟨directory, p, n₀, hdirectory, rfl, hbeneath, -⟩
    · cases hstaged with
      | archive ha =>
        rw [harchive] at ha
        cases ha
      | marker hh =>
        obtain ⟨h, -⟩ | ⟨-, rfl⟩ := entry_besideMarker hentry
        · cases h
        · cases hh
    · obtain rfl := Option.some.inj (hheaders.symm.trans hdirectory)
      obtain ⟨hne, hget⟩ := beneath_besideMarker hlinks hsources hentry hbefore hbeneath
      rw [hheaderPlace, hplace]
      exact ⟨p, _, rfl, hne, .inr ⟨rfl, rfl, hget⟩⟩

end

/-- Sources for both. -/
def headerSources : Tree where
  entries := [(["src"], .dir), (["src", "libc"], .dir), (["src", "libc", "include"], .dir),
    (["src", "libc", "include", "c.h"], .file [] false), (["src", "zlib"], .dir),
    (["src", "zlib", "include"], .dir), (["src", "zlib", "include", "z.h"], .file [] false)]
  nodup := by decide
  root_free := by decide
  housed := by decide
  named := by decide +kernel
  home := []

/-- The headers of the library with a marker are provided for the other one. -/
def providing : Builder Rehearsal.State := besideMarker "c.h" [] [.libc]

/-- The second run finds the headers that the first one provided. -/
theorem run_again_providing : ∃ result bench' result' again',
    providing.run (some [.zlib]) { tree := headerSources, memory := {} } = (.ok result, bench') ∧
      result.state = .done ∧
      providing.run (some [.zlib]) { tree := bench'.tree, memory := {} } = (.ok result', again') ∧
      result'.state = .done ∧ ∀ y, again'.tree.get? (["s"] ++ y) = bench'.tree.get? (["s"] ++ y) := by
  have hwell : WentWell (providing.buildAlone .zlib headerSources) = true := by
    -- the fields of the manifest that is read back are sorted by a function that does not reduce
    delta buildAlone Run.build Run.provideHeaders installHeaders install installMapping transact recordFiles
      writeManifest Json.indentedText
    simp only [Run.invoke, Run.prepareDirs, Path.sort_eq, sortFields_manifestJson]
    decide +kernel
  have hresolve : providing.resolve (some [.zlib]) = .ok [.zlib] := by cbv
  obtain ⟨result, bench', hrun, hdone, horder, -⟩ :=
    run_of_wentWell rfl rfl hresolve (by cbv) (by decide +kernel) hwell
  obtain ⟨hs, hsourced⟩ : (providing.site none).Apart headerSources ["s"] ["build"] linkBudget linkBudget ∧
      (providing.site none).Sourced ["s"] ["build"] ["src"] headerSources :=
    grounds_besideMarker (noLinks_of_entries rfl) (by decide)
  have hin : ∀ l e, providing.catalog.find? l = some e → e.Inward ∧ e.library = l := fun l e he =>
    ⟨inward_besideMarker (by decide +kernel) he, (headers_besideMarker he).2.1⟩
  have hsends : ∀ d, providing.Delivers (some [.zlib]) { tree := headerSources, memory := {} } d →
      ∀ x n, d.Sends x n → d.request.portion = .headers ∧ x = ["include", "c.h"] ∨
        d.request.portion = .whole ∧ d.library = .zlib ∧ x = ["include", "z.h"] := by
    rintro d ⟨order, platformFile, start, hstarts, hd⟩ x n hx
    obtain ⟨p, n', rfl, hne, hsent⟩ := sends_besideMarker (by decide +kernel) (noLinks_of_entries rfl)
      (by decide) (prepareRoots_grounded hs (Work.onTree_eq hstarts.roots).1).1
      (Except.ok.inj (hstarts.resolved.symm.trans hresolve)) hd hx
    rcases hsent with ⟨hheaders, -, hget⟩ | ⟨hwhole, hl, hget⟩
    · have hmem := (get?_eq_some_iff (List.cons_ne_nil _ _)).1 hget
      obtain ⟨rfl, -⟩ : p = ["c.h"] ∧ n' = .file [] false := by
        simpa [headerSources, hne] using hmem
      exact .inl ⟨hheaders, rfl⟩
    · have hmem := (get?_eq_some_iff (List.cons_ne_nil _ _)).1 hget
      obtain ⟨rfl, -⟩ : p = ["z.h"] ∧ n' = .file [] false := by
        simpa [headerSources, hne] using hmem
      exact .inr ⟨hwhole, hl, rfl⟩
  have hagain := run_again (r := {}) (b := providing) rfl
    ⟨⟨fun _ => rfl, rfl⟩, fun _ => rfl, fun _ => rfl⟩ hin hs hsourced.steady hrun hdone
    (fun d d' hd hd' _ x n y n' hx hy hpre => ?_) (fun d hd l hl e he x n y hx hrelies hpre => ?_)
    (fun d hd hwhole x n hx a ha => ?_) (rfl : ({ tree := bench'.tree, memory := {} } : Bench _).tree = _)
    ⟨rfl, rfl⟩
  · obtain ⟨result', again', hrun', hdone', -, hsame⟩ := hagain
    exact ⟨result, bench', result', again', hrun, hdone, hrun', hdone', hsame⟩
  · rcases hsends d hd x n hx with ⟨-, rfl⟩ | ⟨-, -, rfl⟩ <;>
      rcases hsends d' hd' y n' hy with ⟨-, rfl⟩ | ⟨-, -, rfl⟩ <;> revert hpre <;> decide
  · cases hrelies with
    | header _ he' hm =>
      obtain ⟨-, rfl⟩ | ⟨-, rfl⟩ := entry_besideMarker he'
      · cases hm
        rcases hsends d hd x n hx with ⟨-, rfl⟩ | ⟨-, -, rfl⟩ <;> revert hpre <;> decide +kernel
      · cases hm
    | archive _ he' ha =>
      obtain ⟨-, -, -, -, -, -, harchive⟩ := headers_besideMarker he'
      rw [harchive] at ha
      cases ha
  · rcases hsends d hd x n hx with ⟨hheaders, -⟩ | ⟨-, hl, rfl⟩
    · rw [hheaders] at hwhole
      cases hwhole
    · rw [hl] at ha
      exact (IsAside.fits_iff ⟨0, rfl⟩ ha).1 (by decide +kernel)

/-- A file among the sources that is installed where a directory with a marker was before. -/
def fileOverMarker : Tree where
  entries := [(["src"], .dir), (["src", "zlib"], .dir), (["src", "zlib", "include"], .dir),
    (["src", "zlib", "include", "a"], .file [] false), (["s"], .dir), (["s", "include"], .dir),
    (["s", "include", "a"], .dir), (["s", "include", "a", "b.h"], .file [] false)]
  nodup := by decide
  root_free := by decide
  housed := by decide
  named := by decide +kernel
  home := []

/-- The library without a marker requires the other one. -/
def requiring : Builder Rehearsal.State := besideMarker "a/b.h" [.libc] []

/-- In a sysroot in which there is a file in its way, the marker is missing. -/
theorem run_not_done_of_file {bench' : Bench Rehearsal.State} {result : RunResult}
    {content : List UInt8} {executable : Bool}
    (hs : (requiring.site none).Apart t ["s"] ["build"] linkBudget linkBudget)
    (hfile : t.get? ["s", "include", "a"] = some (.file content executable))
    (h : requiring.run (some [.zlib]) { tree := t, memory := {} } = (.ok result, bench')) : result.state ≠ .done := by
  intro hdone
  obtain ⟨platformFile, start, finish, hstarts, hturns, -⟩ := inTurn_of_done h hdone
  have hresolve : requiring.resolve (some [.zlib]) = .ok [.zlib] := by cbv
  rw [← Except.ok.inj (hresolve.symm.trans hstarts.resolved)] at hturns
  obtain ⟨hstart, hsame, -⟩ := prepareRoots_grounded hs (Work.onTree_eq hstarts.roots).1
  obtain _ | ⟨-, hbuild, -⟩ := hturns
  obtain ⟨e, plan, provided, prepared, invoked, hbuilt⟩ := Run.build_ok hbuild
  obtain ⟨h, -⟩ | ⟨-, rfl⟩ := entry_besideMarker (Site.entry_ok hbuilt.entry)
  · cases h
  obtain rfl : (Work.enter .zlib .planning start).2 = provided := congrArg Prod.snd hbuilt.provides
  obtain ⟨e', he', hthere⟩ := (Site.checkPrerequisites_ok_iff.1
    (Site.plan_checks hbuilt.entry hbuilt.plans)).1 .libc (by decide)
  obtain ⟨-, rfl⟩ | ⟨h, -⟩ := entry_besideMarker (Site.entry_ok he')
  swap
  · cases h
  have hmarker : start.tree.query ((requiring.site platformFile).root.within ["include", "a", "b.h"])
      Tree.isFile = .ok true := hthere "a/b.h" rfl
  obtain ⟨-, c, x, hfound⟩ := (query_isFile_iff (hstart.seat_sysroot (apart_site hs platformFile))
    hstart.links_sysroot (List.cons_ne_nil _ _) (by decide +kernel)).1 hmarker
  have hdir : start.tree.get? ["s", "include", "a"] = some .dir :=
    get?_of_append (l := ["s", "include", "a"]) (r := ["b.h"]) hfound (List.cons_ne_nil _ _)
  rcases hsame ["include", "a"] with heq | ⟨hnone, -⟩
  · cases hdir.symm.trans (heq.trans hfile)
  · cases hnone.symm.trans hfile

/-- Without the condition on the files that libraries rely on, a run cannot always be repeated: a marker
that was in the sysroot before goes when a file is installed where its directory is. -/
theorem run_not_again :
    ({} : Rehearsal).Faultless ∧
      (∀ l e, requiring.catalog.find? l = some e → e.Inward ∧ e.library = l) ∧
      (requiring.site none).Apart fileOverMarker ["s"] ["build"] linkBudget linkBudget ∧
      (requiring.site none).Steady ["s"] ["build"] fileOverMarker ∧
      (∀ d d', requiring.Delivers (some [.zlib]) { tree := fileOverMarker, memory := {} } d →
        requiring.Delivers (some [.zlib]) { tree := fileOverMarker, memory := {} } d' →
        ∀ x n y n', d.Sends x n → d'.Sends y n' → x <+: y → x = y) ∧
      (∀ d, requiring.Delivers (some [.zlib]) { tree := fileOverMarker, memory := {} } d →
        d.request.portion = .whole → ∀ x n, d.Sends x n → ∀ a, IsAside d.library a →
          Fits requiring.settings.sysrootDir (stash a ++ x)) ∧
      ∃ result bench', requiring.run (some [.zlib]) { tree := fileOverMarker, memory := {} } =
          (.ok result, bench') ∧ result.state = .done ∧
        ∀ result' again', requiring.run (some [.zlib]) { tree := bench'.tree, memory := {} } =
          (.ok result', again') → result'.state ≠ .done := by
  have hwell : WentWell (requiring.buildAlone .zlib fileOverMarker) = true ∧
      (requiring.buildAlone .zlib fileOverMarker).2.tree.get? ["s", "include", "a"] =
        some (.file [] false) := by
    unfold buildAlone Run.build
    simp only [Run.invoke, Run.prepareDirs, Path.sort_eq]
    decide +kernel
  have hresolve : requiring.resolve (some [.zlib]) = .ok [.zlib] := by cbv
  obtain ⟨hs, hsourced⟩ : (requiring.site none).Apart fileOverMarker ["s"] ["build"] linkBudget linkBudget ∧
      (requiring.site none).Sourced ["s"] ["build"] ["src"] fileOverMarker :=
    grounds_besideMarker (noLinks_of_entries rfl) (by decide)
  have hin : ∀ l e, requiring.catalog.find? l = some e → e.Inward ∧ e.library = l := fun l e he =>
    ⟨inward_besideMarker (by decide +kernel) he, (headers_besideMarker he).2.1⟩
  have hsends : ∀ d, requiring.Delivers (some [.zlib]) { tree := fileOverMarker, memory := {} } d →
      ∀ x n, d.Sends x n → d.library = .zlib ∧ x = ["include", "a"] := by
    rintro d ⟨order, platformFile, start, hstarts, hd⟩ x n hx
    obtain ⟨p, n', rfl, hne, hsent⟩ := sends_besideMarker (by decide +kernel) (noLinks_of_entries rfl)
      (by decide) (prepareRoots_grounded hs (Work.onTree_eq hstarts.roots).1).1
      (Except.ok.inj (hstarts.resolved.symm.trans hresolve)) hd hx
    rcases hsent with ⟨-, hnone, -⟩ | ⟨-, hl, hget⟩
    · cases hnone
    · have hmem := (get?_eq_some_iff (List.cons_ne_nil _ _)).1 hget
      obtain ⟨rfl, -⟩ : p = ["a"] ∧ n' = .file [] false := by
        simpa [fileOverMarker, hne] using hmem
      exact ⟨hl, rfl⟩
  obtain ⟨hwell, hfile⟩ := hwell
  obtain ⟨result, bench', hrun, hdone, -, hleft⟩ :=
    run_of_wentWell rfl rfl hresolve (by cbv) (by decide +kernel) hwell
  refine ⟨⟨⟨fun _ => rfl, rfl⟩, fun _ => rfl, fun _ => rfl⟩, hin, hs, hsourced.steady,
    fun d d' hd hd' x n y n' hx hy _ => ?_, fun d hd _ x n hx a ha => ?_, result, bench', hrun, hdone,
    fun result' again' hagain => ?_⟩
  · rw [(hsends d hd x n hx).2, (hsends d' hd' y n' hy).2]
  · obtain ⟨hl, rfl⟩ := hsends d hd x n hx
    rw [hl] at ha
    exact (IsAside.fits_iff ⟨0, rfl⟩ ha).1 (by decide +kernel)
  · have hground := (run_ledger (Rehearsal.Undisturbed.confined ⟨fun _ => rfl, rfl⟩)
      (fun l e he => (hin l e he).1) hs hrun).1
    exact run_not_done_of_file (hground.apart hs) ((hleft ["include", "a"]).trans hfile) hagain

end Builder

end Sysroot

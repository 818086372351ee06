import Sysroot.Proofs.Run.Lasting

/-!
# Building a library again

A library that was built can be built again in every tree that resembles what is left of its build
(`Run.Rebuilds.build`).  Its prerequisites are there, so that no headers are provided; it gets the plan
that it had, since sources and objects are the same; its invocations put out the same files into a stage
that is empty again; and what is staged is in the sysroot already.
-/

namespace Sysroot

open Effect Sysroot.Tree Sysroot.Tree.Action Sysroot.Install

variable {s : Site} {R B : Location} {k j : Nat} {t₀ t t' u u' : Tree} {W : Library → Prop}
  {l d : Library} {e : Catalog.Entry} {r : Rehearsal}

/-! ## Phases -/

namespace Run

variable {σ : Type} {runner : Runner σ} {dependent : Catalog.Entry} {b bench provided prepared invoked : Bench σ}
  {plan : Plan} {files : List Path}

theorem ofExcept_of_ok {α : Type} {x : Except Fault α} {a : α} (h : x = .ok a) (b : Bench σ) :
    (Work.ofExcept x : Work σ α) b = (.ok a, b) := by
  rw [h]
  rfl

/-- Headers that are there need not be provided. -/
theorem provideHeaders_of_there (he : s.entry d = .ok e)
    (hthere : ∀ m, e.markerHeader = some m → hasHeader b.tree s.root m = .ok true) :
    provideHeaders runner s dependent d b = (.ok (), b) := by
  rw [provideHeaders, bind_of_ok (ofExcept_of_ok he b)]
  cases hm : e.markerHeader with
  | none => rfl
  | some m =>
    have hask : (Work.ask fun t => Fault.ofAnswer (hasHeader t s.root m)) b = (.ok true, b) :=
      ofExcept_of_ok (x := Fault.ofAnswer (hasHeader b.tree s.root m)) (by rw [hthere m hm]; rfl) b
    exact bind_of_ok hask

/-- When the prerequisites of an entry are there, no headers are provided for it. -/
theorem headers_of_there (hcheck : s.checkPrerequisites b.tree e = .ok ()) :
    e.headerRequires.forM (provideHeaders runner s e) b = (.ok (), b) := by
  have hthere := (Site.checkPrerequisites_ok_iff.1 hcheck).1
  have hall : ∀ ls : List Library, (∀ d ∈ ls, d ∈ e.headerRequires) →
      ls.forM (provideHeaders runner s e) b = (.ok (), b) := by
    intro ls hls
    induction ls with
    | nil => rfl
    | cons d ls ih =>
      obtain ⟨e', he', hm⟩ := hthere d (List.mem_append_right _ (hls d List.mem_cons_self))
      exact (bind_of_ok (provideHeaders_of_there he' hm)).trans
        (ih fun d' hd' => hls d' (List.mem_cons_of_mem d hd'))
  exact hall _ fun _ hd => hd

/-- A build whose phases succeed one after the other succeeds. -/
theorem build_of_phases (he : s.entry l = .ok e)
    (hprovides : e.headerRequires.forM (provideHeaders runner s e) (Work.enter l .planning bench).2 =
      (.ok (), provided))
    (hplans : s.plan provided.tree l = .ok plan)
    (hprepares : prepareScratch s l plan (Work.enter l .building provided).2 = (.ok (), prepared))
    (hinvokes : plan.invocations.forM (fun i => invoke runner l l (.invoked l i) i) prepared =
      (.ok (), invoked))
    (hgoes : invoked.cancelled = false)
    (hinstalls : (Request.stage (source plan)).run s.root l invoked.tree = (.ok files, t)) :
    ∃ after, build runner s l bench = (.ok files, after) ∧ after.tree = t ∧
      after.memory = invoked.memory ∧ after.cancelled = false := by
  have henter : ∀ state (b : Bench σ), Work.enter l state b = (.ok (), (Work.enter l state b).2) :=
    fun _ _ => rfl
  have hunless : Work.unlessCancelled l invoked = (.ok (), invoked) := by
    rw [Work.unlessCancelled, bind_of_ok (get_apply invoked), hgoes]
    rfl
  have hinstall : Work.onTree (Install.install s.root l (source plan)) (Work.enter l .installing invoked).2 =
      (.ok files, { (Work.enter l .installing invoked).2 with tree := t }) := by
    rw [Work.onTree, show Install.install s.root l (source plan) (Work.enter l .installing invoked).2.tree =
      (.ok files, t) from hinstalls]
  have hask : (Work.ask (s.plan · l) : Work σ Plan) provided = (.ok plan, provided) :=
    ofExcept_of_ok hplans provided
  refine ⟨(Work.enter l .done { (Work.enter l .installing invoked).2 with tree := t }).2, ?_, rfl, rfl, hgoes⟩
  rw [build, bind_of_ok (ofExcept_of_ok he bench), bind_of_ok (henter .planning bench),
    bind_of_ok hprovides, bind_of_ok hask, bind_of_ok (henter .building provided),
    bind_of_ok hprepares, bind_of_ok hinvokes, bind_of_ok hunless, bind_of_ok (henter .installing invoked),
    bind_of_ok hinstall]
  rfl

end Run

/-! ## What a build leaves in its build directory -/

/-- A build puts out nothing in the stage of headers. -/
theorem Catalog.Entry.PutsOut.head_ne_headers {names : List String} (h : e.PutsOut names) :
    names.head? ≠ some "headers" := by
  cases h <;> simp

/-- What a build puts out is below the stage if it is staged. -/
theorem Catalog.Entry.PutsOut.ne_stage {names : List String} (h : e.PutsOut names) :
    names ≠ ["stage"] := by
  cases h with
  | staged hstaged => cases hstaged <;> simp
  | _ => simp

/-- The places of the build directory of a library that its own build works at: all of it but the stage
of headers. -/
def Library.Works (l : Library) (B m : Location) : Prop :=
  ∃ names, m = B ++ (l.name ++ "-build") :: names ∧ names.head? ≠ some "headers"

/-- Whether two trees have objects of a library at the same places. -/
def Library.ObjectsAlike (d : Library) (B : Location) (t t' : Tree) : Prop :=
  Shaped (fun m => B ++ [d.name ++ "-build", "obj"] <+: m) t t' ∧
    Shaped (fun m => B ++ [d.name ++ "-build", "obj"] <+: m) t' t

theorem Library.ObjectsAlike.refl (d : Library) (B : Location) (t : Tree) : d.ObjectsAlike B t t :=
  ⟨.refl _ t, .refl _ t⟩

theorem Library.ObjectsAlike.of_same (h : d.ObjectsAlike B t u)
    (hsame : ∀ y, u'.get? (B ++ (d.name ++ "-build") :: "obj" :: y) =
      u.get? (B ++ (d.name ++ "-build") :: "obj" :: y)) : d.ObjectsAlike B t u' := by
  have hall : ∀ m, B ++ [d.name ++ "-build", "obj"] <+: m → u'.get? m = u.get? m := by
    rintro m ⟨y, rfl⟩
    rw [List.append_assoc]
    exact hsame y
  exact ⟨h.1.trans (.of_eq fun m hm => (hall m hm).symm), Shaped.trans (.of_eq hall) h.2⟩

namespace Run.Built

variable {plan : Plan} {files : List Path} {bench provided prepared invoked after : Bench Rehearsal.State}
  (h : Built r.runner s l e plan bench provided prepared invoked after files)
  (hs : s.Apart t₀ R B k j) (hr : r.Undisturbed)
  (hin : ∀ l e, s.catalog.find? l = some e → e.Inward) (hkey : e.library = l)
  (hground : Grounded R B t₀ bench.tree)

include h hs hr hin hkey hground

/-- The invocations of a build work at places of the build directory. -/
theorem placed : ∀ i ∈ plan.invocations, i.Placed s.settings.buildRoot B (l.Works B) := by
  obtain ⟨-, hprepared, -⟩ := h.grounded hs hr.confined hin hground
  have hcontains := Site.plan_contains h.entry (hin l e (Site.entry_ok h.entry)) h.plans
  have hverified := invocations_verified hr hcontains.invocations (hprepared.seat_builds hs)
    hprepared.links_builds h.invokes
  intro i hi
  subst hkey
  refine (hverified i hi).placed (hcontains.places i hi) fun y hy hpre => ?_
  rcases hpre with hpre | ⟨names, hnames, hpre⟩
  · rcases List.prefix_cons_iff.1 hpre with rfl | ⟨rest, rfl, hrest⟩
    · exact absurd rfl hy
    · obtain rfl := List.prefix_nil.1 hrest
      exact ⟨[], rfl, by simp⟩
  · rcases List.prefix_cons_iff.1 hpre with rfl | ⟨rest, rfl, more, rfl⟩
    · exact absurd rfl hy
    · refine ⟨rest, rfl, ?_⟩
      cases rest with
      | nil => simp
      | cons name rest => exact hnames.head_ne_headers

/-- When the invocations have run, the build directory is there. -/
theorem dir_scratch : invoked.tree.get? (B ++ [l.name ++ "-build"]) = some .dir := by
  obtain ⟨hprovided, hprepared, -⟩ := h.grounded hs hr.confined hin hground
  have hcontains := Site.plan_contains h.entry (hin l e (Site.entry_ok h.entry)) h.plans
  obtain ⟨-, hget⟩ := prepareScratch_ok (b := (Work.enter l .building provided).2) hcontains
    (hprovided.seat_builds hs) hprovided.links_builds h.prepares
  obtain ⟨hshaped, -⟩ := replays_invocations l (h.placed hs hr hin hkey hground) _ _ _
    (hprepared.seat_builds hs) hprepared.links_builds (invocations_rehearse hr h.invokes)
  obtain ⟨n, hn, hiff⟩ := hshaped _ trivial .dir (by rw [hget, hkey, if_pos rfl])
  rw [hn, hiff.2 rfl]

/-- When the invocations have run, no file is in the place of the stage. -/
theorem dir_stage : invoked.tree.get? (B ++ [l.name ++ "-build", "stage"]) = none ∨
    invoked.tree.get? (B ++ [l.name ++ "-build", "stage"]) = some .dir := by
  obtain ⟨hprovided, hprepared, -⟩ := h.grounded hs hr.confined hin hground
  have hcontains := Site.plan_contains h.entry (hin l e (Site.entry_ok h.entry)) h.plans
  obtain ⟨-, hget⟩ := prepareScratch_ok (b := (Work.enter l .building provided).2) hcontains
    (hprovided.seat_builds hs) hprovided.links_builds h.prepares
  obtain ⟨-, hchanged⟩ := (works_invocations l hcontains.places).of_apply
    (invocations_rehearse hr h.invokes) (hprepared.seat_builds hs) hprepared.links_builds
  subst hkey
  rcases hchanged (B ++ [e.library.name ++ "-build", "stage"]) with
    hsame | ⟨hdir, -⟩ | ⟨o, ⟨names, hnames, rfl⟩, heq⟩
  · refine .inl (hsame.trans ?_)
    rw [hget, if_neg (fun heq => by simp at heq), if_pos (.inl List.prefix_rfl)]
  · exact .inr hdir
  · exact absurd (List.cons.inj (List.append_cancel_left heq)).2.symm hnames.ne_stage

end Run.Built

/-! ## The same build again -/

/-- Whether a tree has what another one has in the sysroot, outside of the directory of builds, and in
that one save for the platform file and the build directories of certain libraries.  In these there are
objects at the same places at least. -/
structure Resembles (R B : Location) (W : Library → Prop) (t u : Tree) : Prop where
  elsewhere : ∀ m, ¬ R <+: m → ¬ B <+: m → u.get? m = t.get? m
  sysroot : ∀ y, u.get? (R ++ y) = t.get? (R ++ y)
  builds : ∀ names, names ≠ [] → names.head? ≠ some "cmake-modules" →
    (∀ d, W d → ¬ [d.name ++ "-build"] <+: names) → u.get? (B ++ names) = t.get? (B ++ names)
  objects : ∀ d : Library, d.ObjectsAlike B t u

/-- Whether a library that was built can be built again in a tree that resembles what is left of its
build.  Neither it nor a library whose objects it embeds was built since, and there is room to set aside
what it staged. -/
structure Run.Repeats (r : Rehearsal) (s : Site) (R B : Location) (t₀ : Tree) (l : Library)
    (e : Catalog.Entry) (plan : Plan) (bench provided prepared invoked after : Bench Rehearsal.State)
    (files : List Path) (t u : Tree) (W W' : Library → Prop) : Prop where
  built : Built r.runner s l e plan bench provided prepared invoked after files
  ground : Grounded R B t₀ bench.tree
  lasting : Lasting s R B W l e plan provided.tree invoked.tree t
  since : ¬ W l
  embeds : ∀ d ∈ e.embedObjects, d ≠ l ∧ ¬ W d
  room : ∀ x n, (Request.stage (source plan)).Sends invoked.tree x n → ∀ a, IsAside l a →
    Fits s.root (stash a ++ x)
  left : Grounded R B t₀ t
  again : Grounded R B t₀ u
  resembles : Resembles R B W' t u
  pending : ¬ W' l

namespace Run.Repeats

variable {W' : Library → Prop} {plan : Plan} {files : List Path}
  {bench provided prepared invoked after : Bench Rehearsal.State}
  (h : Repeats r s R B t₀ l e plan bench provided prepared invoked after files t u W W')
  (hs : s.Apart t₀ R B k j) (hr : r.Undisturbed)
  (hin : ∀ l e, s.catalog.find? l = some e → e.Inward) (hkey : e.library = l)
  (hsteady : s.Steady R B t₀)

include h

/-- Outside of the sysroot and of the directory of builds nothing has changed. -/
theorem elsewhere (m : Location) (hR : ¬ R <+: m) (hB : ¬ B <+: m) : u.get? m = invoked.tree.get? m :=
  (h.resembles.elsewhere m hR hB).trans (h.lasting.kept.elsewhere m hR hB)

/-- The build directory is as it was left. -/
theorem get?_build (y : List String) :
    u.get? (B ++ (l.name ++ "-build") :: y) = t.get? (B ++ (l.name ++ "-build") :: y) := by
  refine h.resembles.builds _ (List.cons_ne_nil _ _) (fun heq => ?_) fun d hd hpre => ?_
  · exact Library.build_ne_modules l (Option.some.inj heq)
  · obtain rfl := Library.build_injective (List.cons_prefix_cons.1 hpre).1
    exact h.pending hd

/-- The results of the invocations are where they were left. -/
theorem get?_results {name : String} (hname : name ≠ "headers") (y : List String) :
    u.get? (B ++ (l.name ++ "-build") :: name :: y) =
      invoked.tree.get? (B ++ (l.name ++ "-build") :: name :: y) :=
  (h.get?_build _).trans (h.lasting.kept.same _ (.build h.since hname y))

include hs hin

/-- The prerequisites are there. -/
theorem checks : s.checkPrerequisites u e = .ok () :=
  Site.checkPrerequisites_again hin (h.left.seat_sysroot hs) h.left.links_sysroot
    (h.again.seat_sysroot hs) h.again.links_sysroot h.lasting.checks
    fun y _ ⟨content, executable, hn⟩ => ⟨content, executable, (h.resembles.sysroot y).trans hn⟩

include hr hsteady

/-- The library gets the plan that it had. -/
theorem plans : s.plan u l = .ok plan := by
  obtain ⟨hprovided, -, -⟩ := h.built.grounded hs hr.confined hin h.ground
  have hsources : s.SameSourceAnswers e provided.tree u :=
    hsteady.answers _ _ hprovided.beside h.again.beside
      (fun m hR hB => (h.resembles.elsewhere m hR hB).trans (h.lasting.since.elsewhere m hR hB))
      l e (Site.entry_ok h.built.entry)
  refine Site.plan_again h.built.plans h.built.entry ⟨hsources, fun d hd => ?_⟩ (h.checks hs hin)
  obtain ⟨hne, hnot⟩ := h.embeds d hd
  have hsame : ∀ m, B ++ [d.name ++ "-build", "obj"] <+: m → t.get? m = provided.tree.get? m := by
    rintro m ⟨y, rfl⟩
    rw [List.append_assoc]
    exact h.lasting.since.same _ (.build (not_or.2 ⟨hne, hnot⟩) (by decide) y)
  obtain ⟨hleft, hright⟩ := h.resembles.objects d
  rw [s.objectDir_eq]
  exact ((Shaped.of_eq fun m hm => (hsame m hm).symm).trans hleft).select_wild
    (hright.trans (.of_eq hsame)) (hprovided.seat_builds hs) (h.again.seat_builds hs)
    hprovided.links_builds h.again.links_builds (List.cons_ne_nil _ _)
    (plain_cons.2 ⟨Site.isName_build d, by decide⟩) List.prefix_rfl
    (fun name => List.prefix_append _ _) "*.o"

omit hsteady

include hkey

/-- What the scratch directory holds once it is prepared again. -/
theorem prepares {b : Bench Rehearsal.State} (hb : b.tree = u) : ∃ t' es,
    prepareScratch s l plan b = (.ok (), { b with tree := t', journal := b.journal ++ es }) ∧
      Grounded R B t₀ t' ∧ (∀ y, t'.get? (R ++ y) = u.get? (R ++ y)) ∧
      ∀ m, t'.get? m = if m = B ++ [l.name ++ "-build"] then some .dir
        else if B ++ [l.name ++ "-build", "stage"] <+: m ∨
          l ∈ s.settings.clobber ∧ B ++ [l.name ++ "-build"] <+: m then none
        else u.get? m := by
  subst hb
  obtain ⟨hprovided, -, -⟩ := h.built.grounded hs hr.confined hin h.ground
  have hcontains := Site.plan_contains h.built.entry (hin l e (Site.entry_ok h.built.entry)) h.built.plans
  obtain ⟨hfits, -⟩ := prepareScratch_ok (b := (Work.enter l .building provided).2) hcontains
    (hprovided.seat_builds hs) hprovided.links_builds h.built.prepares
  have hdir : b.tree.get? (B ++ [e.library.name ++ "-build"]) = some .dir := by
    rw [hkey, h.get?_build]
    exact h.lasting.kept.dirs l (h.built.dir_scratch hs hr hin hkey h.ground)
  have hstage : b.tree.get? (B ++ [e.library.name ++ "-build", "stage"]) = none ∨
      b.tree.get? (B ++ [e.library.name ++ "-build", "stage"]) = some .dir := by
    rw [hkey, h.get?_results (by decide)]
    exact h.built.dir_stage hs hr hin hkey h.ground
  obtain ⟨t', es, hok⟩ := prepareScratch_again (l := l) hcontains (h.again.seat_builds hs)
    h.again.links_builds hfits (.inr hdir) hstage
  obtain ⟨-, hget⟩ := prepareScratch_ok hcontains (h.again.seat_builds hs) h.again.links_builds hok
  have hidle : Idle s.settings.buildRoot B j b { b with tree := t', journal := b.journal ++ es } := by
    have hidle := idle_prepareScratch (B := B) (j := j) hcontains l b fun _ _ => trivial
    rwa [hok] at hidle
  obtain ⟨hground, hsame⟩ := h.again.of_changedBelow hs hidle.tree
  rw [hkey] at hget
  exact ⟨t', es, hok, hground, hsame, hget⟩

/-- Where the invocations work there is what was left, as far as anything is there. -/
theorem shaped_invoked : Shaped (l.Works B) invoked.tree t := by
  rintro m ⟨names, rfl, hnames⟩ n hn
  cases names with
  | nil =>
    have hdir := h.built.dir_scratch hs hr hin hkey h.ground
    obtain rfl := Option.some.inj (hdir.symm.trans hn)
    exact ⟨.dir, h.lasting.kept.dirs l hdir, Iff.rfl⟩
  | cons name y =>
    have hname : name ≠ "headers" := fun heq => hnames (by rw [heq]; rfl)
    exact ⟨n, (h.lasting.kept.same _ (.build h.since hname y)).trans hn, Iff.rfl⟩

variable {v w : Tree}
  (hscratch : ∀ m, v.get? m = if m = B ++ [l.name ++ "-build"] then some .dir
    else if B ++ [l.name ++ "-build", "stage"] <+: m ∨
      l ∈ s.settings.clobber ∧ B ++ [l.name ++ "-build"] <+: m then none
    else u.get? m)
  (hground : Grounded R B t₀ v)

include hscratch

/-- So it is once the scratch directory is prepared again. -/
theorem shaped_prepared : Shaped (l.Works B) v t := by
  rintro m ⟨names, rfl, hnames⟩ n hn
  have hdir : t.get? (B ++ [l.name ++ "-build"]) = some .dir :=
    h.lasting.kept.dirs l (h.built.dir_scratch hs hr hin hkey h.ground)
  rw [hscratch] at hn
  split at hn
  · next heq =>
    obtain rfl := (List.cons.inj (List.append_cancel_left heq)).2
    cases hn
    exact ⟨.dir, hdir, Iff.rfl⟩
  · split at hn
    · cases hn
    · exact ⟨n, (h.get?_build names).symm.trans hn, Iff.rfl⟩

include hground

/-- The invocations can be rehearsed again, and leave no more than what was left. -/
theorem rehearses : ∃ w, plan.invocations.forM (rehearse l) v = (.ok (), w) ∧
    Shaped (l.Works B) w t := by
  obtain ⟨-, hprepared, -⟩ := h.built.grounded hs hr.confined hin h.ground
  obtain ⟨-, hagain⟩ := replays_invocations l (h.built.placed hs hr hin hkey h.ground) _ _ _
    (hprepared.seat_builds hs) hprepared.links_builds (invocations_rehearse hr h.built.invokes)
  exact hagain t v (h.shaped_invoked hs hr hin hkey) (hground.seat_builds hs) hground.links_builds
    (h.shaped_prepared hs hr hin hkey hscratch)

variable (hok : plan.invocations.forM (rehearse l) v = (.ok (), w))

include hok

omit hr in
/-- The invocations change the build directory only. -/
theorem get?_others : (∀ m, ¬ R <+: m → ¬ B <+: m → w.get? m = u.get? m) ∧
    ∀ names, names ≠ [] → ¬ [l.name ++ "-build"] <+: names → w.get? (B ++ names) = u.get? (B ++ names) := by
  have hcontains := Site.plan_contains h.built.entry (hin l e (Site.entry_ok h.built.entry)) h.built.plans
  obtain ⟨⟨haround, -⟩, hchanged⟩ := (works_invocations l hcontains.places).of_apply hok
    (hground.seat_builds hs) hground.links_builds
  have hkept : ∀ m, (∀ y, ¬ B ++ (l.name ++ "-build") :: y <+: m) → v.get? m = u.get? m := fun m hno => by
    rw [hscratch, if_neg (show m ≠ B ++ [l.name ++ "-build"] from fun heq => hno [] (by rw [heq])),
      if_neg (not_or.2 ⟨hno _, fun hclear => hno [] hclear.2⟩)]
  refine ⟨fun m _ hB => ?_, fun names hne hnames => ?_⟩
  · exact (haround.get? m fun hpre => absurd hpre hB).trans
      (hkept m fun y hpre => hB ((List.prefix_append B _).trans hpre))
  · have hno : ∀ y, ¬ (l.name ++ "-build") :: y <+: names := fun y hpre =>
      hnames (((List.cons_prefix_cons).2 ⟨rfl, List.nil_prefix⟩).trans hpre)
    refine Eq.trans ?_ (hkept _ fun y hpre => hno y ((List.prefix_append_right_inj B).1 hpre))
    -- what is on the way to an output is the build directory or below it
    have hway : ∀ y, ¬ names <+: (l.name ++ "-build") :: y := fun y hpre => by
      rcases List.prefix_cons_iff.1 hpre with rfl | ⟨rest, rfl, -⟩
      · exact hne rfl
      · exact hno rest List.prefix_rfl
    subst hkey
    rcases hchanged (B ++ names) with heq | ⟨-, y, hy, -, hpre⟩ | ⟨o, ⟨names', -, rfl⟩, heq⟩
    · exact heq
    · have hpre := (List.prefix_append_right_inj B).1 hpre
      rcases hy with hy | ⟨names', -, hy⟩
      · exact absurd (hpre.trans hy) (hway [])
      · exact absurd (hpre.trans hy) (hway names')
    · exact absurd (List.append_cancel_left heq ▸ List.prefix_rfl) (hway names')

/-- The stage holds again what it held. -/
theorem get?_stage (y : List String) : w.get? (B ++ (l.name ++ "-build") :: "stage" :: y) =
    invoked.tree.get? (B ++ (l.name ++ "-build") :: "stage" :: y) := by
  obtain ⟨hprovided, hprepared, -⟩ := h.built.grounded hs hr.confined hin h.ground
  have hcontains := Site.plan_contains h.built.entry (hin l e (Site.entry_ok h.built.entry)) h.built.plans
  obtain ⟨-, hget⟩ := prepareScratch_ok (b := (Work.enter l .building provided).2) hcontains
    (hprovided.seat_builds hs) hprovided.links_builds h.built.prepares
  refine (pointwise_invocations l hcontains.invocations).get?_eq (hground.seat_builds hs)
    hground.links_builds hok (hprepared.seat_builds hs) hprepared.links_builds
    (invocations_rehearse hr h.built.invokes) ?_
  have hne : B ++ (l.name ++ "-build") :: "stage" :: y ≠ B ++ [l.name ++ "-build"] := fun heq => by
    simp at heq
  have hstage : B ++ [l.name ++ "-build", "stage"] <+: B ++ (l.name ++ "-build") :: "stage" :: y :=
    (List.prefix_append_right_inj B).2 (List.prefix_append [l.name ++ "-build", "stage"] y)
  rw [hget, hkey, hscratch, if_neg hne, if_neg hne, if_pos (.inl hstage), if_pos (.inl hstage)]

/-- The objects are where they were. -/
theorem objects (hshaped : Shaped (l.Works B) w t) : l.ObjectsAlike B t w := by
  obtain ⟨hprovided, hprepared, -⟩ := h.built.grounded hs hr.confined hin h.ground
  have hcontains := Site.plan_contains h.built.entry (hin l e (Site.entry_ok h.built.entry)) h.built.plans
  obtain ⟨-, hget⟩ := prepareScratch_ok (b := (Work.enter l .building provided).2) hcontains
    (hprovided.seat_builds hs) hprovided.links_builds h.built.prepares
  rw [hkey] at hget
  refine ⟨?_, hshaped.mono ?_⟩
  swap
  · rintro m ⟨y, rfl⟩
    exact ⟨"obj" :: y, by simp, by simp⟩
  have hne : ∀ y, B ++ (l.name ++ "-build") :: "obj" :: y ≠ B ++ [l.name ++ "-build"] := fun y heq => by
    simp at heq
  have hout : ∀ y, ¬ B ++ [l.name ++ "-build", "stage"] <+: B ++ (l.name ++ "-build") :: "obj" :: y :=
    fun y hpre => by
      have hpre := (List.prefix_append_right_inj B).1 hpre
      simp at hpre
  have hbelow : ∀ y, B ++ [l.name ++ "-build"] <+: B ++ (l.name ++ "-build") :: "obj" :: y := fun y =>
    (List.prefix_append_right_inj B).2 (List.prefix_append [l.name ++ "-build"] _)
  by_cases hclobber : l ∈ s.settings.clobber
  · -- the directory was cleared before both
    refine .of_eq ?_
    rintro m ⟨y, rfl⟩
    rw [List.append_assoc]
    refine ((h.lasting.kept.same _ (.build h.since (by decide) y)).trans ?_)
    refine (pointwise_invocations l hcontains.invocations).get?_eq (hprepared.seat_builds hs)
      hprepared.links_builds (invocations_rehearse hr h.built.invokes) (hground.seat_builds hs)
      hground.links_builds hok ?_
    show prepared.tree.get? (B ++ (l.name ++ "-build") :: "obj" :: y) =
      v.get? (B ++ (l.name ++ "-build") :: "obj" :: y)
    rw [hget, hscratch, if_neg (hne y), if_neg (hne y), if_pos (.inr ⟨hclobber, hbelow y⟩),
      if_pos (.inr ⟨hclobber, hbelow y⟩)]
  · -- nothing was taken away
    obtain ⟨hgrown, -⟩ := replays_invocations l (h.built.placed hs hr hin hkey h.ground) _ _ _
      (hground.seat_builds hs) hground.links_builds hok
    refine Shaped.trans (.of_eq ?_) (hgrown.mono fun _ _ => trivial)
    rintro m ⟨y, rfl⟩
    rw [List.append_assoc]
    show t.get? (B ++ (l.name ++ "-build") :: "obj" :: y) = v.get? (B ++ (l.name ++ "-build") :: "obj" :: y)
    rw [hscratch, if_neg (hne y), if_neg (not_or.2 ⟨hout y, fun hclear => hclobber hclear.1⟩)]
    exact (h.get?_build _).symm

/-- Below the stage the trees are alike. -/
theorem alike_stage (hground' : Grounded R B t₀ w) :
    Alike (s.stageDir l) (B ++ [l.name ++ "-build", "stage"]) invoked.tree w := by
  obtain ⟨-, -, hinvoked⟩ := h.built.grounded hs hr.confined hin h.ground
  have hstage := h.get?_stage hs hr hin hkey hscratch hground hok
  have hdir : w.get? (B ++ [l.name ++ "-build"]) = some .dir := by
    obtain ⟨hgrown, -⟩ := replays_invocations l (h.built.placed hs hr hin hkey h.ground) _ _ _
      (hground.seat_builds hs) hground.links_builds hok
    obtain ⟨n, hn, hiff⟩ := hgrown _ trivial .dir (by rw [hscratch, if_pos rfl])
    rw [hn, hiff.2 rfl]
  have hplain : Plain [l.name ++ "-build", "stage"] := plain_cons.2 ⟨Site.isName_build l, by decide⟩
  rw [s.stageDir_eq]
  refine .of_seat (hinvoked.seat_builds hs) (hground'.seat_builds hs) hinvoked.links_builds
    hground'.links_builds (List.cons_ne_nil _ _) hplain.descending fun y hy => ?_
  rcases hy with hy | ⟨more, rfl⟩
  · rcases List.prefix_cons_iff.1 hy with rfl | ⟨rest, rfl, hrest⟩
    · rw [List.append_nil, hground'.builds, hinvoked.builds]
    · rcases List.prefix_cons_iff.1 hrest with rfl | ⟨rest', rfl, hrest'⟩
      · rw [hdir, h.built.dir_scratch hs hr hin hkey h.ground]
      · obtain rfl := List.prefix_nil.1 hrest'
        exact hstage []
  · exact hstage more

include hsteady

/-- What is staged again is installed already. -/
theorem installs (hground' : Grounded R B t₀ w) (hsame : ∀ y, w.get? (R ++ y) = t.get? (R ++ y)) :
    ∃ files' w', (Request.stage (source plan)).run s.root l w = (.ok files', w') ∧
      ∀ y, w'.get? (R ++ y) = t.get? (R ++ y) := by
  obtain ⟨-, -, hinvoked⟩ := h.built.grounded hs hr.confined hin h.ground
  have hfind := Site.entry_ok h.built.entry
  have hcontains := Site.plan_contains h.built.entry (hin l e hfind) h.built.plans
  have hrequest := h.built.requests hin
  have haimed := hrequest.aimed hin hs hinvoked
  have hseat := hground'.seat_sysroot hs
  have hstage := h.alike_stage hs hr hin hkey hscratch hground hok hground'
  have hsources : ∀ m, ¬ R <+: m → ¬ B <+: m → w.get? m = invoked.tree.get? m := fun m hR hB =>
    ((h.get?_others hs hin hkey hscratch hground hok).1 m hR hB).trans (h.elsewhere m hR hB)
  have hstaged : (source plan).stage = s.stageDir l :=
    hcontains.stageDir.trans (congrArg s.stageDir hkey)
  obtain ⟨m, -, hm, -⟩ := haimed.course (sited_of_seat (hinvoked.seat_sysroot hs))
    hinvoked.links_sysroot h.built.installs
  -- the directories of the request are those of the stage and the one of headers among the sources
  have hdirs : ∀ dir ∈ (Request.stage (source plan)).dirs, SameUnder dir invoked.tree w ∧
      ∀ there, invoked.tree.surveyed dir = .ok there → w.surveyed dir = .ok there := by
    intro dir hdir
    rcases List.mem_append.1 hdir with hdir | hdir
    · obtain ⟨⟨dir', place⟩, hheaders, rfl⟩ :=
        Option.map_eq_some_iff.1 (Option.mem_def.1 (Option.mem_toList.1 hdir))
      obtain ⟨headers, hplan, heq⟩ := Option.map_eq_some_iff.1 hheaders
      cases heq
      obtain ⟨directory, hdirectory, hdir', -⟩ := hcontains.headers headers hplan
      dsimp only
      rw [hdir']
      exact ⟨hsteady.headers _ _ hinvoked.beside hground'.beside hsources l e directory hfind hdirectory,
        hsteady.surveys _ _ hinvoked.beside hground'.beside hsources l e directory hfind hdirectory⟩
    · obtain ⟨name, hname, rfl⟩ := List.mem_map.1 hdir
      have hplain : Plain [name] := List.forall_mem_singleton.2 (section_of_standard hname).2
      rw [hstaged, Path.div_name (section_of_standard hname).2]
      have halike := hstage.within hplain.descending
      exact ⟨halike.sameUnder, fun _ => halike.surveyed⟩
  have hexpected : ∀ p ∈ (Request.stage (source plan)).expected,
      w.query p Tree.occupies = invoked.tree.query p Tree.occupies := by
    intro p hp
    obtain ⟨x, -, hdown, rfl⟩ := Site.stagedFiles_at (hin l e hfind) (s.stageDir_eq e.library) p
      (Site.plan_staged h.built.entry h.built.plans p hp)
    rw [← Path.within_within, ← s.stageDir_eq, hkey]
    have halike := hstage.within hdown
    exact halike.query halike.occupies
  obtain ⟨files', w', hrun, -, hkept⟩ := (h.lasting.stands.of_same (h.left.seat_sysroot hs) hseat
    h.left.links_sysroot hground'.links_sysroot hsame).run_repeats haimed
      (hrequest.aimed hin hs hground') rfl (h.built.installable hs hr hin h.ground)
      (fun dir hdir => (hdirs dir hdir).1) hseat hground'.links_sysroot hm
      (fun dir hdir => (hdirs dir hdir).2) hexpected h.room
  exact ⟨files', w', hrun, fun y => (hkept y).trans (hsame y)⟩

omit hr hscratch hground hok

/-- A library that was built can be built again; the sysroot is the same afterwards. -/
theorem builds (hfaultless : r.Faultless) {b : Bench Rehearsal.State} (hb : b.tree = u) (hcalm : b.Calm) :
    ∃ files' b', build r.runner s l b = (.ok files', b') ∧ b'.Calm ∧ Grounded R B t₀ b'.tree ∧
      Resembles R B (fun d => d = l ∨ W' d) t b'.tree := by
  subst hb
  have hr := hfaultless.toUndisturbed
  have hcontains := Site.plan_contains h.built.entry (hin l e (Site.entry_ok h.built.entry)) h.built.plans
  have hprovides : e.headerRequires.forM (provideHeaders r.runner s e) (Work.enter l .planning b).2 =
      (.ok (), (Work.enter l .planning b).2) :=
    headers_of_there (b := (Work.enter l .planning b).2) (h.checks hs hin)
  obtain ⟨v, es, hprepare, hground, hsame, hscratch⟩ := h.prepares hs hr hin hkey
    (b := (Work.enter l .building (Work.enter l .planning b).2).2) rfl
  obtain ⟨w, hok, hshaped⟩ := h.rehearses hs hr hin hkey hscratch hground
  obtain ⟨b₁, hinvoke, rfl, hcalm₁⟩ := invocations_of_rehearse hfaultless
    (h.built.placed hs hr hin hkey h.ground)
    (b := { (Work.enter l .building (Work.enter l .planning b).2).2 with tree := v, journal := _ ++ es })
    ⟨hcalm.going, hcalm.memory⟩ (hground.seat_builds hs) hground.links_builds l (.invoked l) hok
  have hstays : StaysBelow s.settings.buildRoot B j (plan.invocations.forM (rehearse l)) :=
    .forM fun i hi => staysBelow_rehearse l (hcontains.invocations i hi)
  obtain ⟨hground₁, hsame₁⟩ := hground.of_changedBelow hs (hstays.of_apply hok fun _ _ => trivial)
  have hsysroot : ∀ y, b₁.tree.get? (R ++ y) = t.get? (R ++ y) := fun y =>
    (hsame₁ y).trans ((hsame y).trans (h.resembles.sysroot y))
  obtain ⟨files', w', hinstall, hkept⟩ :=
    h.installs hs hr hin hkey hsteady hscratch hground hok hground₁ hsysroot
  obtain ⟨b', hbuild, rfl, hmemory, hgoing⟩ := build_of_phases h.built.entry hprovides
    (h.plans hs hr hin hsteady) hprepare hinvoke hcalm₁.going hinstall
  have hrequest := h.built.requests hin
  have haround := hrequest.sameAround hs hin hground₁ hinstall
  obtain ⟨helsewhere, hothers⟩ := h.get?_others hs hin hkey hscratch hground hok
  refine ⟨files', b', hbuild, ⟨hgoing, by rw [hmemory]; exact hcalm₁.memory⟩,
    ((hrequest.run_spec hin hs hground₁).2 _ _ hinstall).1, fun m hR hB => ?_, hkept, fun names hne hhead hnot => ?_,
    fun d => ?_⟩
  · exact ((haround.get? m fun hpre => absurd hpre hR).trans (helsewhere m hR hB)).trans
      (h.resembles.elsewhere m hR hB)
  · exact ((haround.get?_builds hs names).trans (hothers names hne (hnot l (.inl rfl)))).trans
      (h.resembles.builds names hne hhead fun d hd => hnot d (.inr hd))
  · by_cases hd : d = l
    · subst hd
      exact (h.objects hs hr hin hkey hscratch hground hok hshaped).of_same fun y =>
        haround.get?_builds hs _
    · refine (h.resembles.objects d).of_same fun y => (haround.get?_builds hs _).trans
        (hothers _ (List.cons_ne_nil _ _) fun hpre => hd ?_)
      exact (Library.build_injective (List.cons_prefix_cons.1 hpre).1).symm

end Run.Repeats

end Sysroot

import Sysroot.Proofs.Run.Deliveries
import Sysroot.Proofs.Run.FailFast

/-!
# The turns of libraries in a run

The loop of a run builds one library after another (`Builder.Builds`).  A run comes to a library
when the loop, having built others, takes it next (`Builder.ComesTo`); every library of a result
that is done had its turn (`Builder.comesTo_of_done`).  A build that succeeds passes through its
phases (`Run.Built`), and the ground of a run stays firm from each to the next
(`Builder.ComesTo.grounded`, `Run.Built.grounded`).  A run that is done has built all the libraries of
its order in turn (`Builder.inTurn_of_done`).
-/

namespace Sysroot

open Effect Sysroot.Tree Sysroot.Tree.Action Sysroot.Install

variable {σ α : Type} {s : Site} {r : Runner σ} {order pending pending' : List Library}
  {l : Library} {e : Catalog.Entry} {plan : Plan} {files : List Path} {t₀ : Tree}
  {bench mid after start provided prepared invoked : Bench σ} {R B : Location} {k j : Nat}

theorem Work.unlessCancelled_ok {b b' : Bench σ} (h : Work.unlessCancelled l b = (.ok (), b')) :
    b.cancelled = false ∧ b' = b := by
  rw [Work.unlessCancelled, bind_of_ok (get_apply b)] at h
  cases hc : b.cancelled with
  | true =>
    rw [if_pos hc] at h
    cases h
  | false =>
    rw [if_neg (by simp [hc])] at h
    cases h
    exact ⟨rfl, rfl⟩

/-- A library stands where it was moved to. -/
theorem Work.stateOf_enter (l : Library) (state : LibraryState) (b : Bench σ) :
    (Work.enter l state b).2.stateOf l = state := by
  show ((b.states.insert l state).find? l).getD .pending = state
  rw [OrderedMap.find?_insert, if_pos rfl, Option.getD_some]

/-! ## The phases of a build -/

namespace Run

/-- A build that succeeds passes through its phases: the headers that are required are provided, a
plan is made, the scratch directory is prepared, the invocations are run, and what was staged is
installed. -/
structure Built (r : Runner σ) (s : Site) (l : Library) (e : Catalog.Entry) (plan : Plan)
    (bench provided prepared invoked after : Bench σ) (files : List Path) : Prop where
  entry : s.entry l = .ok e
  provides : e.headerRequires.forM (provideHeaders r s e) (Work.enter l .planning bench).2 =
    (.ok (), provided)
  plans : s.plan provided.tree l = .ok plan
  prepares : prepareScratch s l plan (Work.enter l .building provided).2 = (.ok (), prepared)
  invokes : plan.invocations.forM (fun i => invoke r l l (.invoked l i) i) prepared =
    (.ok (), invoked)
  goes : invoked.cancelled = false
  installs : (Request.stage (source plan)).run s.root l invoked.tree = (.ok files, after.tree)
  finishes : after =
    (Work.enter l .done { (Work.enter l .installing invoked).2 with tree := after.tree }).2

theorem build_ok (h : build r s l bench = (.ok files, after)) :
    ∃ e plan provided prepared invoked,
      Built r s l e plan bench provided prepared invoked after files := by
  obtain ⟨e, b, hread, hbuild⟩ := bind_ok h
  obtain ⟨he, hb⟩ := Work.ofExcept_ok hread
  rw [hb] at hbuild
  obtain ⟨_, planning, henter, hplanning⟩ := bind_ok hbuild
  obtain rfl : (Work.enter l .planning bench).2 = planning := congrArg Prod.snd henter
  obtain ⟨_, provided, hprovide, hprovided⟩ := bind_ok hplanning
  obtain ⟨plan, b, hask, hplan⟩ := bind_ok hprovided
  obtain ⟨hmade, hb⟩ := Work.ofExcept_ok hask
  rw [hb] at hplan
  obtain ⟨_, building, henter, hbuilding⟩ := bind_ok hplan
  obtain rfl : (Work.enter l .building provided).2 = building := congrArg Prod.snd henter
  obtain ⟨_, prepared, hprepare, hprepared⟩ := bind_ok hbuilding
  obtain ⟨_, invoked, hinvoke, hinvoked⟩ := bind_ok hprepared
  obtain ⟨_, b, hunless, hgoing⟩ := bind_ok hinvoked
  obtain ⟨hgoes, hb⟩ := Work.unlessCancelled_ok hunless
  rw [hb] at hgoing
  obtain ⟨_, installing, henter, hinstalling⟩ := bind_ok hgoing
  obtain rfl : (Work.enter l .installing invoked).2 = installing := congrArg Prod.snd henter
  obtain ⟨files', installed, hinstall, hinstalled⟩ := bind_ok hinstalling
  obtain ⟨hrun, hb⟩ := Work.onTree_eq hinstall
  have hfinish : (Except.ok files', (Work.enter l .done installed).2) = (Except.ok files, after) :=
    hinstalled
  obtain ⟨hfiles, rfl⟩ := Prod.mk.inj hfinish
  obtain rfl := Except.ok.inj hfiles
  exact ⟨e, plan, provided, prepared, invoked, he, hprovide, hmade, hprepare, hinvoke, hgoes, hrun,
    congrArg (fun b => (Work.enter l .done b).2) hb⟩

/-- An invocation that goes well makes its directories, is noted and is run. -/
theorem invoke_ok {onBehalfOf : Library} {event : Event} {i : Invocation} {b b' : Bench σ}
    (h : invoke r l onBehalfOf event i b = (.ok (), b')) :
    b.cancelled = false ∧ ∃ t c, prepareDirs l i b.tree = (.ok (), t) ∧
      Work.run r i (Bench.note { b with tree := t } event) = (.ok c, b') := by
  obtain ⟨⟨⟩, b₁, hgoes, hstart⟩ := bind_ok h
  obtain ⟨hgoing, rfl⟩ := Work.unlessCancelled_ok hgoes
  obtain ⟨⟨⟩, b₂, hprepare, hnoting⟩ := bind_ok hstart
  obtain ⟨⟨⟩, b₃, hnote, hrunning⟩ := bind_ok hnoting
  obtain ⟨c, b₄, hrun, hlast⟩ := bind_ok hrunning
  obtain ⟨hmake, hmade⟩ := Work.onTree_eq hprepare
  cases hlast
  cases hnote
  rw [hmade] at hrun
  exact ⟨hgoing, _, c, hmake, hrun⟩

/-- Headers that are provided are there already, or their invocations are run and the headers
installed. -/
theorem provideHeaders_ok {dependent : Catalog.Entry} {b b' : Bench σ}
    (h : provideHeaders r s dependent l b = (.ok (), b')) :
    ∃ e, s.entry l = .ok e ∧
      (b'.tree = b.tree ∧ (∀ m, e.markerHeader = some m → hasHeader b.tree s.root m = .ok true) ∨
      ∃ m plan invoked files, e.markerHeader = some m ∧ hasHeader b.tree s.root m = .ok false ∧
        s.headerPlan b.tree l = .ok plan ∧
        plan.invocations.forM (fun i =>
          invoke r l dependent.library (.invokedForHeaders l i dependent.library) i) b =
            (.ok (), invoked) ∧
        (Request.headers plan.headersDir plan.place).run s.root l invoked.tree =
          (.ok files, b'.tree)) := by
  obtain ⟨e, b₁, hread, hprovide⟩ := bind_ok h
  obtain ⟨he, rfl⟩ := Work.ofExcept_ok hread
  refine ⟨e, he, ?_⟩
  rcases hmarker : e.markerHeader with _ | m
  · rw [hmarker] at hprovide
    cases hprovide
    exact .inl ⟨rfl, nofun⟩
  rw [hmarker] at hprovide
  obtain ⟨there, b₂, hask, hasked⟩ := bind_ok hprovide
  obtain ⟨hanswer, rfl⟩ := Work.ofExcept_ok hask
  have hthere : hasHeader b₂.tree s.root m = .ok there := mapError_ok hanswer
  cases there with
  | true =>
    cases hasked
    exact .inl ⟨rfl, fun m' hm' => Option.some.inj hm' ▸ hthere⟩
  | false =>
    rw [if_neg Bool.false_ne_true] at hasked
    obtain ⟨plan, b₃, hplan, hplanned⟩ := bind_ok hasked
    obtain ⟨hmade, rfl⟩ := Work.ofExcept_ok hplan
    obtain ⟨⟨⟩, b₄, hinvoke, hinvoked⟩ := bind_ok hplanned
    obtain ⟨files, b₅, hinstall, hlast⟩ := bind_ok hinvoked
    obtain ⟨hrun, -⟩ := Work.onTree_eq hinstall
    cases hlast
    exact .inr ⟨m, plan, b₄, files, rfl, hthere, hmade, hinvoke, hrun⟩

/-- Work that is made of steps and succeeds leaves the ground firm. -/
theorem grounded_of_stepwise {x : Work σ α} {a : α} (hs : s.Apart t₀ R B k j)
    (hr : r.Confined s.settings.buildRoot B j)
    (hin : ∀ l e, s.catalog.find? l = some e → e.Inward) (hx : Work.Stepwise r s order x)
    (hok : x bench = (.ok a, after)) (hground : Grounded R B t₀ bench.tree) :
    Grounded R B t₀ after.tree := by
  obtain ⟨ds, hsteps⟩ := hx.of_apply hok fun _ he => by cases he
  exact (hsteps.ledger hs hr hin hground).1

/-- The ground is firm in all phases of a build if it is at first. -/
theorem Built.grounded (h : Built r s l e plan bench provided prepared invoked after files)
    (hs : s.Apart t₀ R B k j) (hr : r.Confined s.settings.buildRoot B j)
    (hin : ∀ l e, s.catalog.find? l = some e → e.Inward) (hground : Grounded R B t₀ bench.tree) :
    Grounded R B t₀ provided.tree ∧ Grounded R B t₀ prepared.tree ∧
      Grounded R B t₀ invoked.tree := by
  have hprovide : Work.Stepwise r s [l] (e.headerRequires.forM (provideHeaders r s e)) :=
    Keeps.forM fun d _ => stepwise_provideHeaders hin e d
  have hprovided : Grounded R B t₀ provided.tree :=
    grounded_of_stepwise hs hr hin hprovide h.provides hground
  have hprepare : Work.Stepwise r s [l] (prepareScratch s l plan) := fun _ _ =>
    (Step.prepareScratch h.entry h.plans).advances
  have hprepared : Grounded R B t₀ prepared.tree :=
    grounded_of_stepwise hs hr hin hprepare h.prepares hprovided
  have hinvoke : Work.Stepwise r s [l] (plan.invocations.forM fun i => invoke r l l (.invoked l i) i) :=
    Keeps.forM fun i hi => stepwise_invoke l l rfl
      ⟨l, e, provided.tree, h.entry, .inl ⟨plan, h.plans, hi⟩⟩
  exact ⟨hprovided, hprepared, grounded_of_stepwise hs hr hin hinvoke h.invokes hprepared⟩

/-- What a build installs is a request of its site. -/
theorem Built.requests (h : Built r s l e plan bench provided prepared invoked after files)
    (hin : ∀ l e, s.catalog.find? l = some e → e.Inward) :
    s.Requests l (.stage (source plan)) := by
  have hcontains : s.Contains e plan :=
    Site.plan_contains h.entry (hin l e (Site.entry_ok h.entry)) h.plans
  refine ⟨e, h.entry, hcontains.stageDir, rfl, fun dir place hheaders => ?_⟩
  obtain ⟨headers, hplan, heq⟩ := Option.map_eq_some_iff.1 hheaders
  cases heq
  exact hcontains.headers headers hplan

end Run

/-! ## The loop -/

namespace Builder

variable {b : Builder σ} {request : Option (List Library)}

/-- The loop of a run builds libraries one after the other, each as soon as it is ready. -/
inductive Builds (b : Builder σ) (s : Site) (order : List Library) :
    List Library → Bench σ → List Library → Bench σ → Prop where
  | refl (pending : List Library) (bench : Bench σ) : Builds b s order pending bench pending bench
  | build {pending pending' : List Library} {bench next last : Bench σ} {l : Library}
      {files : List Path} (hgoing : bench.cancelled = false)
      (hfind : pending.find? (b.isReady order bench) = some l)
      (hbuild : Run.build b.runner s l bench = (.ok files, next))
      (rest : Builds b s order (pending.erase l) next pending' last) :
      Builds b s order pending bench pending' last

/-- What a run does before its loop: it finds an order, sees that nothing is missing that it takes,
and makes its directories. -/
structure Starts (b : Builder σ) (request : Option (List Library)) (bench : Bench σ)
    (order : List Library) (platformFile : Option Path) (start : Bench σ) : Prop where
  resolved : b.resolve request = .ok order
  validated : b.validate order = .ok ()
  roots : Work.onTree (b.prepareRoots order) ((opened order bench).note (b.opening order)) =
    (.ok platformFile, start)

/-- Whether a run comes to a library: having built others, its loop takes that one next. -/
def ComesTo (b : Builder σ) (request : Option (List Library)) (bench : Bench σ)
    (s : Site) (order : List Library) (l : Library) (mid : Bench σ) : Prop :=
  ∃ platformFile start pending, b.Starts request bench order platformFile start ∧
    s = b.site platformFile ∧ b.Builds s order order start pending mid ∧
    mid.cancelled = false ∧ pending.find? (b.isReady order mid) = some l

/-- The libraries that the loop leaves were there before. -/
theorem Builds.mem (h : b.Builds s order pending bench pending' after) :
    ∀ l ∈ pending', l ∈ pending := by
  induction h with
  | refl => exact fun _ hl => hl
  | build _ _ _ _ ih => exact fun l hl => List.mem_of_mem_erase (ih l hl)

theorem Builds.nodup (h : b.Builds s order pending bench pending' after) (hnodup : pending.Nodup) :
    pending'.Nodup := by
  induction h with
  | refl => exact hnodup
  | build _ _ _ _ ih => exact ih (hnodup.erase _)

/-- A library that is left stands where it stood. -/
theorem Builds.stateOf_eq (h : b.Builds s order pending bench pending' after) (hnodup : pending.Nodup)
    (hl : l ∈ pending') : after.stateOf l = bench.stateOf l := by
  induction h with
  | refl => rfl
  | @build pending pending' bench next last d files _ hfind hbuild rest ih =>
    have hne : l ≠ d := fun heq => hnodup.not_mem_erase (heq ▸ rest.mem l hl)
    obtain ⟨e, plan, provided, prepared, invoked, hbuilt⟩ := Run.build_ok hbuild
    obtain ⟨es, hafter, honly, -⟩ := Run.build_spec b.runner s hbuilt.entry bench
    rw [hbuild] at hafter
    rw [ih (hnodup.erase d) hl, Bench.stateOf, hafter.states, History.find?_replay,
      honly.entered_eq_nil hne]
    rfl

/-- A library that is not left had its turn. -/
theorem Builds.exists_turn (h : b.Builds s order pending bench pending' after) (hl : l ∈ pending)
    (hnot : l ∉ pending') : ∃ pending₁ mid files next, b.Builds s order pending bench pending₁ mid ∧
      mid.cancelled = false ∧ pending₁.find? (b.isReady order mid) = some l ∧
      Run.build b.runner s l mid = (.ok files, next) ∧
      b.Builds s order (pending₁.erase l) next pending' after := by
  induction h with
  | refl => exact absurd hl hnot
  | @build pending pending' bench next last d files hgoing hfind hbuild rest ih =>
    by_cases hd : d = l
    · subst hd
      exact ⟨pending, bench, files, next, .refl pending bench, hgoing, hfind, hbuild, rest⟩
    · obtain ⟨pending₁, mid, files', next', hbefore, hturn⟩ :=
        ih ((List.mem_erase_of_ne (Ne.symm hd)).2 hl) hnot
      exact ⟨pending₁, mid, files', next', .build hgoing hfind hbuild hbefore, hturn⟩

/-- What a library requires of the order had its turn when a run comes to it. -/
theorem ComesTo.turn_of_requires {d : Library} (h : b.ComesTo request bench s order l mid)
    (hd : d ∈ b.catalog.requires l) (hord : d ∈ order) :
    ∃ platformFile start pending pending' turn files next,
      b.Starts request bench order platformFile start ∧ s = b.site platformFile ∧
      b.Builds s order order start pending turn ∧ turn.cancelled = false ∧
      pending.find? (b.isReady order turn) = some d ∧
      Run.build b.runner s d turn = (.ok files, next) ∧
      b.Builds s order (pending.erase d) next pending' mid := by
  obtain ⟨platformFile, start, pending', hstarts, hsite, hbuilds, -, hfind⟩ := h
  have hnodup := (resolve_spec hstarts.resolved).1
  have hdone : mid.stateOf d = .done := by
    have hready := List.find?_some hfind
    simp only [isReady, List.all_eq_true, Bool.or_eq_true, decide_eq_true_eq] at hready
    exact (hready d hd).resolve_left fun hno => hno hord
  have hpending : start.stateOf d = .pending := by
    rw [(Work.onTree_eq hstarts.roots).2, Bench.stateOf]
    show ((opened order bench).states.find? d).getD .pending = _
    rw [opened, find?_pending hord]
    rfl
  have hnot : d ∉ pending' := fun hleft => by
    rw [hbuilds.stateOf_eq hnodup hleft, hpending] at hdone
    cases hdone
  obtain ⟨pending, turn, files, next, hbefore, hgoing, hturn, hbuild, hafter⟩ :=
    hbuilds.exists_turn hord hnot
  exact ⟨platformFile, start, pending, pending', turn, files, next, hstarts, hsite, hbefore, hgoing,
    hturn, hbuild, hafter⟩

/-- Building libraries is made of steps. -/
theorem Builds.advances (h : b.Builds s order pending bench pending' after)
    (hin : ∀ l e, s.catalog.find? l = some e → e.Inward) (hpending : ∀ l ∈ pending, l ∈ order) :
    Run.Advances b.runner s order bench after := by
  induction h with
  | refl _ bench => exact Std.Refl.refl bench
  | build hgoing hfind hbuild rest ih =>
    have hl := hpending _ (List.mem_of_find?_eq_some hfind)
    have hfirst : Run.Advances b.runner s order _ _ :=
      (Run.stepwise_build hin hl).of_apply hbuild fun _ he => by cases he
    exact Trans.trans hfirst (ih fun l hl => hpending l (List.mem_of_mem_erase hl))

/-- The ground is firm whenever a run comes to a library. -/
theorem ComesTo.grounded (h : b.ComesTo request bench s order l mid)
    (hr : b.runner.Confined b.settings.buildRoot B j)
    (hin : ∀ l e, b.catalog.find? l = some e → e.Inward)
    (hs : (b.site none).Apart bench.tree R B k j) :
    s.Apart bench.tree R B k j ∧ Grounded R B bench.tree mid.tree ∧ l ∈ order ∧
      s.catalog = b.catalog ∧ s.settings = b.settings := by
  obtain ⟨platformFile, start, pending, hstarts, rfl, hbuilds, -, hfind⟩ := h
  obtain ⟨hprepare, -⟩ := Work.onTree_eq hstarts.roots
  obtain ⟨hground, -, -⟩ := prepareRoots_grounded hs hprepare
  obtain ⟨ds, hsteps⟩ := hbuilds.advances hin fun _ hl => hl
  exact ⟨apart_site hs platformFile, (hsteps.ledger (apart_site hs platformFile) hr hin hground).1,
    hbuilds.mem l (List.mem_of_find?_eq_some hfind), rfl, rfl⟩

/-- Libraries that are built one after the other. -/
inductive InTurn (b : Builder σ) (s : Site) : List Library → Bench σ → Bench σ → Prop where
  | nil (bench : Bench σ) : InTurn b s [] bench bench
  | cons {rest : List Library} {bench next last : Bench σ} {l : Library} {files : List Path}
      (hgoing : bench.cancelled = false) (hbuild : Run.build b.runner s l bench = (.ok files, next))
      (hrest : InTurn b s rest next last) : InTurn b s (l :: rest) bench last

/-- A loop that is not stopped and in which nothing fails builds its libraries in turn. -/
theorem inTurn_of_buildEach {start : Bench σ} (hcat : s.catalog = b.catalog)
    (hentries : ∀ l ∈ order, ∃ e, b.catalog.find? l = some e) (hnodup : order.Nodup)
    (hfirst : Catalog.PrerequisitesFirst b.catalog order order) {waiting built : List Library}
    {es : List Event} {outcomes outcomes' : OrderedMap Library Outcome} (hafter : start.After es bench)
    (hacc : Account b.catalog order es outcomes built [] waiting)
    (h : b.buildEach s order waiting outcomes bench = (.ok outcomes', after))
    (hdone : endState after outcomes' = .done) : b.InTurn s waiting bench after := by
  have hgoing : after.cancelled = false := by
    cases hc : after.cancelled with
    | false => rfl
    | true =>
      rw [endState, if_pos hc] at hdone
      cases hdone
  induction waiting generalizing built es bench outcomes with
  | nil =>
    cases hc : bench.cancelled with
    | true =>
      rw [buildEach_of_cancelled hc] at h
      cases h
      exact .nil _
    | false =>
      rw [buildEach_of_not_ready hc rfl] at h
      cases h
      exact .nil _
  | cons l rest ih =>
    cases hcancelled : bench.cancelled with
    | true =>
      rw [buildEach_of_cancelled hcancelled] at h
      cases h
      rw [hcancelled] at hgoing
      cases hgoing
    | false =>
      rw [buildEach_of_find? hcancelled (find?_isReady hfirst hafter hacc)] at h
      obtain ⟨outcome, next, hattempt, h⟩ := bind_ok h
      obtain ⟨e, he⟩ := hentries l (hacc.split ▸ by simp)
      have hentry : s.entry l = .ok e := by
        rw [Site.entry, hcat, Catalog.entry, he]
        rfl
      obtain ⟨es', hafter', honly, hends⟩ := Run.attempt_spec hentry hattempt
      rcases hends with ⟨files, rfl, hes'⟩ | ⟨cause, way, going, last, rfl, -⟩
      · rw [List.erase_cons_head] at h
        rcases hbuild : Run.build b.runner s l bench with ⟨fault | files', next'⟩
        · rw [Run.attempt_of_error hbuild] at hattempt
          cases fault <;> cases hattempt
        · rw [Run.attempt_of_ok hbuild] at hattempt
          cases hattempt
          exact .cons hcancelled hbuild
            (ih (hafter.trans hafter') (hacc.succeed hnodup hfirst honly hes' files) h)
      · cases h
        have hall : (outcomes.insert l (.failed cause)).values.all Outcome.ok = true := by
          rw [endState, if_neg (by simp [hgoing])] at hdone
          split at hdone
          · assumption
          · cases hdone
        have hmem : (l, Outcome.failed cause) ∈ (outcomes.insert l (.failed cause)).pairs :=
          OrderedMap.mem_pairs_iff.2 (by rw [OrderedMap.find?_insert, if_pos rfl])
        have hfailed := List.all_eq_true.1 hall _ (List.mem_map_of_mem hmem)
        cases hfailed

/-- A run that is done has built the libraries of its order in turn, and reported that. -/
theorem inTurn_of_done {bench' : Bench σ} {result : RunResult}
    (h : b.run request bench = (.ok result, bench')) (hdone : result.state = .done) :
    ∃ platformFile start finish, b.Starts request bench result.order platformFile start ∧
      b.InTurn (b.site platformFile) result.order start finish ∧
      ∃ r journal, r.ok = true ∧ b.writeReport r journal finish.tree = (.ok (), bench'.tree) := by
  obtain ⟨order, platformFile, outcomes, start, finish, ending, hresolve, hvalidate, hroots, hloop,
    -, ⟨r, journal, hstate, hreport⟩, rfl⟩ := run_ok h
  obtain ⟨hnodup, hentries, hfirst⟩ := resolve_spec hresolve
  have hafter : (opened order bench).After [b.opening order] start :=
    (Bench.After.note _ rfl).trans (Work.after_of_onTree hroots)
  exact ⟨platformFile, start, finish, ⟨hresolve, hvalidate, hroots⟩,
    inTurn_of_buildEach rfl hentries hnodup hfirst hafter (account_opening b order) hloop hdone,
    r, journal, decide_eq_true (hstate.trans hdone), hreport⟩

end Builder

end Sysroot

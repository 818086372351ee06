import Sysroot.Proofs.Install.Sources
import Sysroot.Proofs.Plan.Escapes
import Sysroot.Proofs.Plan.Places
import Sysroot.Proofs.Run.LifeCycle

/-!
# The steps of a run

All that a run does between making its directories and its report is made of a few kinds of steps
(`Run.Step`): an event is noted, a library enters a state, an invocation of a plan is made ready and
run, a scratch directory is prepared, and a request of a site is carried out.  A request that
succeeds is a delivery, and labels its step.  A run goes on step by step unless a failure without a
cause ends it (`Builder.stepwise_buildEach`).
-/

namespace Sysroot

open Effect Sysroot.Tree Sysroot.Tree.Action Sysroot.Install

variable {σ α β : Type} {s : Site} {r : Runner σ} {order : List Library} {l : Library}

/-! ## Deliveries -/

/-- What of a library is delivered at once. -/
inductive Portion where
  /-- Its headers, before it is built. -/
  | headers
  /-- All that its build staged. -/
  | whole
deriving DecidableEq

/-- What an event says was delivered. -/
def Event.delivers? : Event → Option (Library × Portion)
  | .headersProvided l _ _ => some (l, .headers)
  | .transition l _ .done => some (l, .whole)
  | _ => none

/-- The portion of a library that a request is about. -/
def Install.Request.portion : Request → Portion
  | .stage _ => .whole
  | .headers .. => .headers

/-- A request for a library that was carried out, with the trees before and after. -/
structure Delivery where
  library : Library
  request : Request
  before : Tree
  after : Tree

/-- What an event for a delivery says. -/
def Delivery.notice (d : Delivery) : Library × Portion := (d.library, d.request.portion)

/-- Whether a request is one that a site makes for a library: its stage is where the library is
built, and its headers are those of the library. -/
def Site.Requests (s : Site) (l : Library) : Request → Prop
  | .stage source => ∃ e, s.entry l = .ok e ∧ source.stage = s.stageDir e.library ∧
      source.sections = standardSections ∧
      ∀ dir place, source.headers = some (dir, place) → s.FromSources e dir place
  | .headers dir place => ∃ e, s.entry l = .ok e ∧ s.ProvidesFrom e dir place

/-- Whether an invocation is one that some plan of a site has. -/
def Site.Plans (s : Site) (i : Invocation) : Prop :=
  ∃ l e t, s.entry l = .ok e ∧ ((∃ plan, s.plan t l = .ok plan ∧ i ∈ plan.invocations) ∨
    ∃ plan, s.headerPlan t l = .ok plan ∧ i ∈ plan.invocations)

namespace Run

/-! ## Steps -/

/-- What a run does to its bench at once, with the delivery if it is one. -/
inductive Step (r : Runner σ) (s : Site) (order : List Library) :
    Bench σ → Option Delivery → Bench σ → Prop where
  | note {b : Bench σ} {e : Event} (he : e.delivers? = none) : Step r s order b none (b.note e)
  | enter {b : Bench σ} {l : Library} {state : LibraryState} (hstate : state ≠ .done) :
      Step r s order b none (Work.enter l state b).2
  | prepareDirs {b : Bench σ} {i : Invocation} (l : Library) (hi : s.Plans i) :
      Step r s order b none (Work.onTree (Run.prepareDirs l i) b).2
  | run {b : Bench σ} {i : Invocation} (hi : s.Plans i) : Step r s order b none (Work.run r i b).2
  | prepareScratch {b : Bench σ} {l : Library} {e : Catalog.Entry} {t : Tree} {plan : Plan}
      (he : s.entry l = .ok e) (hplan : s.plan t l = .ok plan) :
      Step r s order b none (Run.prepareScratch s l plan b).2
  | refuse {b : Bench σ} {l : Library} {request : Request} {cause : Cause} {t' : Tree}
      (hrequest : s.Requests l request)
      (hrun : request.run s.root l b.tree = (.error (.caused cause), t')) :
      Step r s order b none { b with tree := t' }
  | provide {b : Bench σ} {l : Library} {dir : Path} {place : String} {files : List Path}
      {t' : Tree} (dependent : Library) (hrequest : s.Requests l (.headers dir place))
      (hrun : (Request.headers dir place).run s.root l b.tree = (.ok files, t')) :
      Step r s order b (some ⟨l, .headers dir place, b.tree, t'⟩)
        (Bench.note { b with tree := t' } (.headersProvided l files.length dependent))
  | install {b : Bench σ} {l : Library} {source : Source} {files : List Path} {t' : Tree}
      (hl : l ∈ order) (hrequest : s.Requests l (.stage source))
      (hrun : (Request.stage source).run s.root l b.tree = (.ok files, t')) :
      Step r s order b (some ⟨l, .stage source, b.tree, t'⟩)
        (Work.enter l .done { b with tree := t' }).2

/-- Steps one after the other, with their deliveries in order. -/
inductive Steps (r : Runner σ) (s : Site) (order : List Library) :
    Bench σ → List Delivery → Bench σ → Prop where
  | refl (b : Bench σ) : Steps r s order b [] b
  | step {b b' b'' : Bench σ} {d? : Option Delivery} {ds : List Delivery}
      (first : Step r s order b d? b') (rest : Steps r s order b' ds b'') :
      Steps r s order b (d?.toList ++ ds) b''

theorem Steps.append {b b' b'' : Bench σ} {ds ds' : List Delivery}
    (h : Steps r s order b ds b') (h' : Steps r s order b' ds' b'') :
    Steps r s order b (ds ++ ds') b'' := by
  induction h with
  | refl b => exact h'
  | step first rest ih =>
    rw [List.append_assoc]
    exact .step first (ih h')

/-- Whether there are steps from one bench to another one. -/
def Advances (r : Runner σ) (s : Site) (order : List Library) (b b' : Bench σ) : Prop :=
  ∃ ds, Steps r s order b ds b'

theorem Step.advances {b b' : Bench σ} {d? : Option Delivery} (h : Step r s order b d? b') :
    Advances r s order b b' :=
  ⟨_, .step h (.refl b')⟩

instance : Std.Refl (Advances r s order) := ⟨fun b => ⟨[], .refl b⟩⟩

instance : Trans (Advances r s order) (Advances r s order) (Advances r s order) where
  trans h h' := by
    obtain ⟨ds, hds⟩ := h
    obtain ⟨ds', hds'⟩ := h'
    exact ⟨ds ++ ds', hds.append hds'⟩

end Run

/-- Whether a failure has a cause. -/
def Fault.IsCaused (fault : Fault) : Prop := ∃ cause, fault = .caused cause

/-- Work that is made of steps, unless it fails without a cause. -/
abbrev Work.Stepwise (r : Runner σ) (s : Site) (order : List Library) (x : Work σ α) : Prop :=
  Keeps Fault.IsCaused (Run.Advances r s order) x

/-! ## Work on a bench -/

namespace Work

theorem stepwise_pure (a : α) : Stepwise r s order (pure a : Work σ α) := .of_eq fun _ => rfl

theorem stepwise_ofExcept (x : Except Fault α) : Stepwise r s order (ofExcept x : Work σ α) :=
  .of_eq fun b => by cases x <;> rfl

theorem stepwise_get : Stepwise r s order (get : Work σ (Bench σ)) := .of_eq fun _ => rfl

theorem stepwise_ask (f : Tree → Except Fault α) : Stepwise r s order (ask f : Work σ α) :=
  stepwise_get.bind fun _ => stepwise_ofExcept _

theorem stepwise_unlessCancelled (l : Library) :
    Stepwise r s order (unlessCancelled l : Work σ Unit) := by
  refine stepwise_get.bind fun bench => ?_
  split
  · exact .of_eq fun _ => rfl
  · exact stepwise_pure _

theorem stepwise_note {e : Event} (he : e.delivers? = none) :
    Stepwise r s order (note e : Work σ Unit) := fun _ _ =>
  (Run.Step.note he).advances

theorem stepwise_enter (l : Library) {state : LibraryState} (hstate : state ≠ .done) :
    Stepwise r s order (enter l state : Work σ Unit) := fun _ _ =>
  (Run.Step.enter hstate).advances

/-- A request that a site makes is a step if it fails with a cause, and if it succeeds so it is
together with what is said of it. -/
theorem stepwise_request {request : Request} (hrequest : s.Requests l request)
    {announce : List Path → Work σ β} (hannounce : ∀ files t' (b : Bench σ),
      request.run s.root l b.tree = (.ok files, t') →
      ∃ d?, Run.Step r s order b d? (announce files { b with tree := t' }).2) :
    Stepwise r s order (onTree (request.run s.root l) >>= announce) := by
  intro b hcaused
  rcases hrun : request.run s.root l b.tree with ⟨fault | files, t'⟩
  · have hfail : (onTree (request.run s.root l) >>= announce) b =
        (.error fault, { b with tree := t' }) :=
      bind_of_error (by rw [onTree, hrun])
    rw [hfail] at hcaused ⊢
    obtain ⟨cause, rfl⟩ := hcaused fault rfl
    exact (Run.Step.refuse hrequest hrun).advances
  · have hok : (onTree (request.run s.root l) >>= announce) b =
        announce files { b with tree := t' } :=
      bind_of_ok (by rw [onTree, hrun])
    rw [hok]
    obtain ⟨d?, hstep⟩ := hannounce files t' b hrun
    exact hstep.advances

end Work

/-! ## The build of a library -/

namespace Run

open Work

theorem stepwise_invoke (l onBehalfOf : Library) {event : Event} {i : Invocation}
    (he : event.delivers? = none) (hi : s.Plans i) :
    Stepwise r s order (invoke r l onBehalfOf event i) := by
  refine (stepwise_unlessCancelled _).bind fun _ => ?_
  have hprepare : Stepwise r s order (onTree (prepareDirs l i)) := fun _ _ =>
    (Step.prepareDirs l hi).advances
  have hrun : Stepwise r s order (Work.run r i) := fun _ _ => (Step.run hi).advances
  exact hprepare.bind fun _ => (stepwise_note he).bind fun _ => hrun.bind fun _ => stepwise_pure _

variable (hin : ∀ l e, s.catalog.find? l = some e → e.Inward)

include hin

theorem stepwise_provideHeaders (dependent : Catalog.Entry) (l : Library) :
    Stepwise r s order (provideHeaders r s dependent l) := by
  refine (stepwise_ofExcept _).bind_of fun _ e _ he => ?_
  have he : s.entry l = .ok e := (Work.ofExcept_ok he).1
  split
  · exact stepwise_pure _
  refine (stepwise_ask _).bind fun there => ?_
  split
  · exact stepwise_pure _
  refine (stepwise_ask _).bind_of fun bench plan _ hplan => ?_
  have hplan : s.headerPlan bench.tree l = .ok plan := (Work.ofExcept_ok hplan).1
  have hrequest : s.Requests l (.headers plan.headersDir plan.place) :=
    ⟨e, he, (Site.headerPlan_contains he (hin l e (Site.entry_ok he)) hplan).2⟩
  refine (Keeps.forM fun i hi => stepwise_invoke _ _ rfl
    ⟨l, e, bench.tree, he, .inr ⟨plan, hplan, hi⟩⟩).bind fun _ => ?_
  exact stepwise_request hrequest
    fun files t' b hrun => ⟨_, .provide dependent.library hrequest hrun⟩

theorem stepwise_build (hl : l ∈ order) : Stepwise r s order (build r s l) := by
  refine (stepwise_ofExcept _).bind_of fun _ e _ he => ?_
  have he : s.entry l = .ok e := (Work.ofExcept_ok he).1
  refine (stepwise_enter l (by decide)).bind fun _ => ?_
  refine (Keeps.forM fun d _ => stepwise_provideHeaders hin e d).bind fun _ => ?_
  refine (stepwise_ask _).bind_of fun bench plan _ hplan => ?_
  have hplan : s.plan bench.tree l = .ok plan := (Work.ofExcept_ok hplan).1
  have hcontains : s.Contains e plan := Site.plan_contains he (hin l e (Site.entry_ok he)) hplan
  have hrequest : s.Requests l (.stage (source plan)) := by
    refine ⟨e, he, hcontains.stageDir, rfl, fun dir place hheaders => ?_⟩
    obtain ⟨h, hh, heq⟩ := Option.map_eq_some_iff.1 hheaders
    cases heq
    exact hcontains.headers h hh
  have hprepare : Stepwise r s order (prepareScratch s l plan) := fun _ _ =>
    (Step.prepareScratch he hplan).advances
  refine (stepwise_enter l (by decide)).bind fun _ => hprepare.bind fun _ => ?_
  refine (Keeps.forM fun i hi => stepwise_invoke l l rfl
    ⟨l, e, bench.tree, he, .inl ⟨plan, hplan, hi⟩⟩).bind fun _ => ?_
  refine (stepwise_unlessCancelled l).bind fun _ => (stepwise_enter l (by decide)).bind fun _ => ?_
  exact stepwise_request hrequest fun files t' b hrun => ⟨_, .install hl hrequest hrun⟩

theorem stepwise_attempt (hl : l ∈ order) : Stepwise r s order (attempt r s l) := by
  refine .tryCatch ((stepwise_build hin hl).map _) ?_ ?_
  · rintro _ ⟨cause, rfl⟩
    exact (stepwise_enter l (by decide)).bind fun _ =>
      (stepwise_note rfl).bind fun _ => stepwise_pure _
  · intro fault bench hfault
    refine ⟨fault, ?_, hfault⟩
    cases fault with
    | caused cause => exact absurd ⟨cause, rfl⟩ hfault
    | _ => rfl

end Run

/-! ## The loop of a run -/

/-- The loop of a run goes on step by step, and delivers none but its own libraries as a whole. -/
theorem Builder.stepwise_buildEach {b : Builder σ}
    (hin : ∀ l e, s.catalog.find? l = some e → e.Inward) (pending : List Library)
    (hpending : ∀ l ∈ pending, l ∈ order) (outcomes : OrderedMap Library Outcome) :
    Work.Stepwise b.runner s order (b.buildEach s order pending outcomes) := by
  induction hn : pending.length using Nat.strongRecOn generalizing pending outcomes with
  | ind n ih =>
  intro bench hcaused
  cases hc : bench.cancelled with
  | true =>
    rw [buildEach_of_cancelled hc]
    exact Std.Refl.refl bench
  | false =>
    cases hfind : pending.find? (b.isReady order bench) with
    | none =>
      rw [buildEach_of_not_ready hc hfind]
      exact Std.Refl.refl bench
    | some l =>
      have hl : l ∈ pending := List.mem_of_find?_eq_some hfind
      rw [buildEach_of_find? hc hfind] at hcaused ⊢
      refine (Run.stepwise_attempt hin (hpending l hl)).bind (fun outcome => ?_) bench hcaused
      dsimp only
      split
      · exact ih _ (hn ▸ Catalog.length_erase_lt_of_find? hfind) (pending.erase l)
          (fun d hd => hpending d (List.mem_of_mem_erase hd)) _ rfl
      · exact Work.stepwise_pure _

end Sysroot

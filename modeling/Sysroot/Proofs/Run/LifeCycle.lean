import Sysroot.Proofs.Catalog.Order
import Sysroot.Proofs.Run.History
import Sysroot.Run.Builder

/-!
# The life cycle of libraries in a run

A library of a run goes through a beginning of the four working states, or fails after it has
left `pending`: `IsLifeCycle`.  One library's build goes exactly that far
(`Run.attempt_spec`), whatever its runner does and whenever the build is asked to stop.

The loop of a run keeps an account (`Account`): the libraries that are built are a beginning
of the order, the rest is pending, and every library that was started had its prerequisites in
the run done.  Because the order is topological, the first pending library is always ready, so
the loop ends with the account of a whole run: all built, or one failed and the rest not
started.
-/

namespace Sysroot

open History

variable {σ : Type}

/-! ## One library -/

/-- The states of a library that is built. -/
def LibraryState.working : List LibraryState := [.pending, .planning, .building, .installing, .done]

/-- The ways that a library can go: some of the working states in order, or at least two of
them without the last one, and then failure. -/
def IsLifeCycle (states : List LibraryState) : Prop :=
  (states ≠ [] ∧ states <+: LibraryState.working) ∨
    ∃ way, way <+: LibraryState.working ∧ 2 ≤ way.length ∧ .done ∉ way ∧ states = way ++ [.failed]

namespace Run

theorem still_invoke (r : Runner σ) (l onBehalfOf : Library) {event : Event}
    (h : event.move? = none) (i : Invocation) : (invoke r l onBehalfOf event i).Still := by
  refine (Work.still_unlessCancelled onBehalfOf).bind fun _ => ?_
  refine (Work.still_onTree _).bind fun _ => ?_
  refine (Work.still_note h).bind fun _ => ?_
  exact (Work.still_run r i).bind fun _ => Work.still_pure _

theorem still_provideHeaders (r : Runner σ) (site : Site) (dependent : Catalog.Entry)
    (l : Library) : (provideHeaders r site dependent l).Still := by
  refine (Work.still_ofExcept _).bind fun e => ?_
  cases e.markerHeader with
  | none => exact Work.still_pure _
  | some marker =>
    refine (Work.still_ask _).bind fun there => ?_
    cases there with
    | true => exact Work.still_pure _
    | false =>
      refine (Work.still_ask _).bind fun plan => ?_
      refine (Work.still_forM _ fun i => still_invoke r l _ rfl i).bind fun _ => ?_
      exact (Work.still_onTree _).bind fun files => Work.still_note rfl

theorem still_prepareScratch (site : Site) (l : Library) (plan : Plan) :
    (prepareScratch site l plan : Work σ Unit).Still := by
  have hempty : ∀ there : Bool, (if there = true then
      Work.onTree (Tree.Action.onRefusal (Tree.Action.apply (Tree.removeTree · plan.stageDir))
        fun e => Tree.Action.fail (.scratchBlocked l plan.scratchDir.text e))
      else pure ⟨⟩ : Work σ Unit).Still := by
    intro there
    split
    · exact Work.still_onTree _
    · exact Work.still_pure _
  have hstage : ∀ _ : PUnit, (do
      Work.onTree (Tree.Action.onRefusal (Tree.Action.ensureDirs plan.scratchDir)
        fun e => Tree.Action.fail (.scratchBlocked l plan.scratchDir.text e))
      if ← Work.onTree (Tree.Action.onRefusal
          (Tree.Action.ask (Tree.query · plan.stageDir Tree.holds))
          fun e => Tree.Action.fail (.scratchBlocked l plan.scratchDir.text e)) then
        Work.onTree (Tree.Action.onRefusal (Tree.Action.apply (Tree.removeTree · plan.stageDir))
          fun e => Tree.Action.fail (.scratchBlocked l plan.scratchDir.text e)) :
      Work σ Unit).Still := fun _ =>
    (Work.still_onTree _).bind fun _ => (Work.still_onTree _).bind hempty
  unfold prepareScratch
  simp only []
  split
  · refine (Work.still_onTree _).bind fun there => ?_
    split
    · refine (Work.still_onTree _).bind fun _ => (Work.still_note rfl).bind hstage
    · exact hstage ⟨⟩
  · exact hstage ⟨⟩

/-- A build of a library that the catalog has goes through the working states, or fails
after it entered `planning` and before the last of them. -/
theorem build_spec (r : Runner σ) (site : Site) {l : Library} {e : Catalog.Entry}
    (h : site.entry l = .ok e) (b : Bench σ) :
    ∃ es, b.After es (build r site l b).2 ∧ Only l es ∧
      (∀ files, (build r site l b).1 = .ok files →
        entered es l = [.planning, .building, .installing, .done]) ∧
      ∀ fault, (build r site l b).1 = .error fault →
        ∃ way, way <+: [.building, .installing] ∧ entered es l = .planning :: way := by
  unfold build
  rw [h, show Work.ofExcept (.ok e) = (pure e : Work σ Catalog.Entry) from rfl, pure_bind]
  refine Work.Takes.enter_bind (?_ : Work.Takes _ l [.building, .installing, .done] _) b
  refine (Work.still_forM _ (still_provideHeaders r site e)).bind_takes fun _ => ?_
  refine (Work.still_ask _).bind_takes fun plan => ?_
  refine (Work.takes_enter l .building).bind List.nil_prefix fun _ => ?_
  refine (still_prepareScratch site l plan).bind_takes fun _ => ?_
  refine (Work.still_forM _ fun i => still_invoke r l l rfl i).bind_takes fun _ => ?_
  refine (Work.still_unlessCancelled l).bind_takes fun _ => ?_
  refine (Work.takes_enter l .installing).bind List.nil_prefix fun _ => ?_
  refine (Work.still_onTree _).bind_takes fun files => ?_
  exact Work.takes_enter_pure l .done files

theorem attempt_of_ok {r : Runner σ} {site : Site} {l : Library} {bench bench' : Bench σ} {files : List Path}
    (h : build r site l bench = (.ok files, bench')) :
    attempt r site l bench = (.ok (.succeeded files), bench') := by
  unfold attempt
  rw [Effect.tryCatch_apply, map_eq_pure_bind, Effect.bind_of_ok h]
  rfl

/-- A failure with a cause is the outcome of a library, any other one ends the run. -/
theorem attempt_of_error {r : Runner σ} {site : Site} {l : Library} {bench bench' : Bench σ} {fault : Fault}
    (h : build r site l bench = (.error fault, bench')) :
    attempt r site l bench = match fault with
      | .caused cause =>
          (.ok (.failed cause), (Work.enter l .failed bench').2.note (.failed l cause))
      | fault => (.error fault, bench') := by
  unfold attempt
  rw [Effect.tryCatch_apply, map_eq_pure_bind, Effect.bind_of_error h]
  cases fault <;> rfl

/-- What becomes of a library whose build is attempted: it is built, or it fails after it
entered `planning`, and its failure is the last thing that happens to it. -/
theorem attempt_spec {r : Runner σ} {site : Site} {l : Library} {e : Catalog.Entry}
    {b b' : Bench σ} {outcome : Outcome} (he : site.entry l = .ok e)
    (h : attempt r site l b = (.ok outcome, b')) :
    ∃ es, b.After es b' ∧ Only l es ∧
      ((∃ files, outcome = .succeeded files ∧
          entered es l = [.planning, .building, .installing, .done]) ∨
        ∃ cause way going last, outcome = .failed cause ∧ way <+: [.building, .installing] ∧
          entered es l = .planning :: way ++ [.failed] ∧
          es = going ++ last ∧ Unfailed going ∧ Quiet last.tail) := by
  obtain ⟨es, hafter, honly, hok, herror⟩ := build_spec r site he b
  rcases hbuild : build r site l b with ⟨fault | files, b₁⟩
  · rw [attempt_of_error hbuild] at h
    rw [hbuild] at hafter herror
    obtain ⟨way, hway, hentered⟩ := herror fault rfl
    cases fault with
    | caused cause =>
      cases h
      have hquiet : Quiet [.failed l cause] := fun x hx => List.mem_singleton.1 hx ▸ rfl
      have hgoing : Unfailed es := by
        refine honly.unfailed fun hfailed => ?_
        rw [hentered] at hfailed
        have hfailed : LibraryState.failed ∈ way := by simpa using hfailed
        have := hway.subset hfailed
        simp at this
      refine ⟨_, hafter.trans ((Work.after_enter l .failed b₁).trans (.note _ rfl)), ?_, .inr ?_⟩
      · exact honly.append ((Work.only_transition l _ _).append (hquiet.only l))
      · refine ⟨cause, way, es, _, rfl, hway, ?_, rfl, hgoing, hquiet⟩
        rw [entered_append, entered_append, entered_transition, if_pos rfl, hentered]
        rfl
    | _ => cases h
  · rw [attempt_of_ok hbuild] at h
    rw [hbuild] at hafter hok
    cases h
    exact ⟨es, hafter, honly, .inl ⟨files, rfl, hok files rfl⟩⟩

end Run

/-! ## The loop of a run -/

/-- Whether no library entered `planning` before the libraries it requires of an order were
done. -/
def StartsReady (c : Catalog) (order : List Library) (es : List Event) : Prop :=
  ∀ earlier l before later, es = earlier ++ .transition l before .planning :: later →
    ∀ d ∈ c.requires l, d ∈ order → standing earlier d = .done

/-- What the events and the outcomes of a run say of its order: first come the libraries that
are built, then those that failed, then those that were not started. -/
structure Account (c : Catalog) (order : List Library) (es : List Event)
    (outcomes : OrderedMap Library Outcome) (built stopped waiting : List Library) : Prop where
  split : order = built ++ (stopped ++ waiting)
  built_done : ∀ l ∈ built, entered es l = [.planning, .building, .installing, .done] ∧
    ∃ files, outcomes.find? l = some (.succeeded files)
  stopped_failed : ∀ l ∈ stopped,
    (∃ way, way <+: [.building, .installing] ∧ entered es l = .planning :: way ++ [.failed]) ∧
      ∃ cause, outcomes.find? l = some (.failed cause)
  waiting_pending : ∀ l ∈ waiting, entered es l = []
  keys : outcomes.keys = built ++ stopped
  ready : StartsReady c order es
  halts : ∃ going last, es = going ++ last ∧ Unfailed going ∧ Quiet last.tail ∧
    (stopped = [] → last = [])

/-- Events of one library that was ready keep the order of starts. -/
theorem StartsReady.append {c : Catalog} {order : List Library} {es es' : List Event}
    {l : Library} (h : StartsReady c order es) (honly : Only l es')
    (hready : ∀ d ∈ c.requires l, d ∈ order → standing es d = .done)
    (hl : standing es l ≠ .done) : StartsReady c order (es ++ es') := by
  intro earlier l' before later heq d hd hord
  rcases List.append_eq_append_iff.1 heq with ⟨more, rfl, hes'⟩ | ⟨more, hes, hlater⟩
  · have hl' : l' = l := honly _ (hes' ▸ List.mem_append_right _ List.mem_cons_self) _ rfl
    subst hl'
    have hne : d ≠ l' := fun hdl => hl (hdl ▸ hready d hd hord)
    have hmore : Only l' more := fun e he => honly e (hes' ▸ List.mem_append_left _ he)
    rw [standing_append_of_nil (hmore.entered_eq_nil hne)]
    exact hready d hd hord
  · cases more with
    | nil =>
      rw [List.nil_append] at hlater
      have hl' : l' = l := honly _ (hlater ▸ List.mem_cons_self) _ rfl
      subst hl'
      rw [List.append_nil] at hes
      exact hes ▸ hready d hd hord
    | cons e more =>
      rw [List.cons_append, List.cons.injEq] at hlater
      obtain ⟨rfl, -⟩ := hlater
      exact h earlier l' before more hes d hd hord

/-- The next library of an account is not among those that are built, and stands where it
started. -/
theorem Account.next {c : Catalog} {order : List Library} {es : List Event}
    {outcomes : OrderedMap Library Outcome}
    {built rest : List Library} {l : Library}
    (hacc : Account c order es outcomes built [] (l :: rest)) (hnodup : order.Nodup) :
    l ∉ built ∧ l ∉ rest ∧ standing es l ≠ .done := by
  have hsplit := hacc.split
  rw [List.nil_append] at hsplit
  rw [hsplit, List.nodup_append, List.nodup_cons] at hnodup
  refine ⟨fun hl => hnodup.2.2 l hl l List.mem_cons_self rfl, hnodup.2.1.1, ?_⟩
  simp [standing, hacc.waiting_pending l List.mem_cons_self]

/-- While nothing failed there is no failure among the events. -/
theorem Account.unfailed {c : Catalog} {order : List Library} {es : List Event}
    {outcomes : OrderedMap Library Outcome} {built waiting : List Library}
    (hacc : Account c order es outcomes built [] waiting) : Unfailed es := by
  obtain ⟨going, last, rfl, hgoing, -, hlast⟩ := hacc.halts
  rw [hlast rfl, List.append_nil]
  exact hgoing

/-- Events that move no library do not change what an account says. -/
theorem Account.append_quiet {c : Catalog} {order : List Library} {es es' : List Event}
    {outcomes : OrderedMap Library Outcome} {built stopped waiting : List Library}
    (hacc : Account c order es outcomes built stopped waiting) (hquiet : Quiet es') :
    Account c order (es ++ es') outcomes built stopped waiting := by
  have hent : ∀ l, entered (es ++ es') l = entered es l := fun l => by
    rw [entered_append, hquiet.entered_eq_nil, List.append_nil]
  refine ⟨hacc.split, ?_, ?_, ?_, hacc.keys, ?_, ?_⟩
  · intro l hl
    rw [hent]
    exact hacc.built_done l hl
  · intro l hl
    rw [hent]
    exact hacc.stopped_failed l hl
  · intro l hl
    rw [hent]
    exact hacc.waiting_pending l hl
  · intro earlier l before later heq
    rcases List.append_eq_append_iff.1 heq with ⟨more, -, hes'⟩ | ⟨more, hes, hlater⟩
    · have hmove := hquiet _ (hes' ▸ List.mem_append_right _ List.mem_cons_self)
      cases hmove
    · cases more with
      | nil =>
        have hmove := hquiet _ (hlater ▸ List.mem_cons_self)
        cases hmove
      | cons e more =>
        rw [List.cons_append, List.cons.injEq] at hlater
        obtain ⟨rfl, -⟩ := hlater
        exact hacc.ready earlier l before more hes
  · obtain ⟨going, last, hes, hgoing, hlast, hnil⟩ := hacc.halts
    cases last with
    | nil =>
      refine ⟨es ++ es', [], (List.append_nil _).symm, ?_, quiet_nil, fun _ => rfl⟩
      rw [hes, List.append_nil]
      exact hgoing.append hquiet.unfailed
    | cons e rest =>
      refine ⟨going, e :: rest ++ es', ?_, hgoing, hlast.append hquiet, fun h => ?_⟩
      · rw [hes, List.append_assoc]
      · cases hnil h

/-- In an account no library moves after one failed. -/
theorem Account.quiet_of_failed {c : Catalog} {order : List Library} {es earlier later : List Event}
    {outcomes : OrderedMap Library Outcome} {built stopped waiting : List Library} {l : Library}
    {before : LibraryState} (hacc : Account c order es outcomes built stopped waiting)
    (h : es = earlier ++ .transition l before .failed :: later) : Quiet later := by
  obtain ⟨going, last, hes, hgoing, hlast, -⟩ := hacc.halts
  rw [hes] at h
  rcases List.append_eq_append_iff.1 h with ⟨more, -, hmore⟩ | ⟨more, hmore, hrest⟩
  · cases more with
    | nil =>
      rw [List.nil_append] at hmore
      rw [hmore] at hlast
      exact hlast
    | cons e more =>
      rw [hmore] at hlast
      cases hlast _ (List.mem_append_right more List.mem_cons_self)
  · cases more with
    | nil =>
      rw [List.nil_append] at hrest
      rw [← hrest] at hlast
      exact hlast
    | cons e more =>
      rw [List.cons_append, List.cons.injEq] at hrest
      obtain ⟨rfl, -⟩ := hrest
      exact absurd rfl (hgoing _ (hmore ▸ List.mem_append_right _ List.mem_cons_self) l)

/-- The account after something became of the next library. -/
theorem Account.insert {c : Catalog} {order : List Library} {es es' : List Event}
    {outcomes : OrderedMap Library Outcome} {built rest : List Library} {l : Library}
    (hacc : Account c order es outcomes built [] (l :: rest)) (hnodup : order.Nodup)
    (hfirst : Catalog.PrerequisitesFirst c order order) (honly : Only l es')
    (outcome : Outcome) :
    (∀ d ∈ built, entered (es ++ es') d = [.planning, .building, .installing, .done] ∧
      ∃ files, (outcomes.insert l outcome).find? d = some (.succeeded files)) ∧
    (∀ d ∈ rest, entered (es ++ es') d = []) ∧
    entered (es ++ es') l = entered es' l ∧
    (outcomes.insert l outcome).keys = built ++ [l] ∧
    StartsReady c order (es ++ es') := by
  obtain ⟨hbuilt, hrest, hstand⟩ := hacc.next hnodup
  have hother : ∀ d, d ≠ l → entered (es ++ es') d = entered es d := fun d hd => by
    rw [entered_append, honly.entered_eq_nil hd, List.append_nil]
  refine ⟨fun d hd => ?_, fun d hd => ?_, ?_, ?_, ?_⟩
  · have hne : d ≠ l := fun h => hbuilt (h ▸ hd)
    obtain ⟨hent, files, hfiles⟩ := hacc.built_done d hd
    refine ⟨(hother d hne).trans hent, files, ?_⟩
    rw [OrderedMap.find?_insert, if_neg hne, hfiles]
  · have hne : d ≠ l := fun h => hrest (h ▸ hd)
    rw [hother d hne]
    exact hacc.waiting_pending d (List.mem_cons_of_mem l hd)
  · rw [entered_append, hacc.waiting_pending l List.mem_cons_self, List.nil_append]
  · have hkeys := hacc.keys
    rw [List.append_nil] at hkeys
    rw [OrderedMap.keys_insert_of_notMem (hkeys ▸ hbuilt), hkeys]
  · refine hacc.ready.append honly (fun d hd hord => ?_) hstand
    have hdb : d ∈ built := hfirst built l rest hacc.split d hd hord
    rw [standing, (hacc.built_done d hdb).1]
    rfl

/-- The account after the next library was built. -/
theorem Account.succeed {c : Catalog} {order : List Library} {es es' : List Event}
    {outcomes : OrderedMap Library Outcome} {built rest : List Library} {l : Library}
    (hacc : Account c order es outcomes built [] (l :: rest)) (hnodup : order.Nodup)
    (hfirst : Catalog.PrerequisitesFirst c order order) (honly : Only l es')
    (hes' : entered es' l = [.planning, .building, .installing, .done]) (files : List Path) :
    Account c order (es ++ es') (outcomes.insert l (.succeeded files)) (built ++ [l]) [] rest := by
  obtain ⟨hbuilt, hrest, hent, hkeys, hstarts⟩ :=
    hacc.insert hnodup hfirst honly (.succeeded files)
  refine ⟨?_, ?_, nofun, hrest, ?_, hstarts, es ++ es', [], (List.append_nil _).symm, ?_,
    quiet_nil, fun _ => rfl⟩
  · rw [hacc.split, List.append_assoc]
    rfl
  · intro d hd
    rcases List.mem_append.1 hd with hd | hd
    · exact hbuilt d hd
    · obtain rfl := List.mem_singleton.1 hd
      refine ⟨hent.trans hes', files, ?_⟩
      rw [OrderedMap.find?_insert, if_pos rfl]
  · rw [hkeys, List.append_nil]
  · refine hacc.unfailed.append (honly.unfailed ?_)
    rw [hes']
    decide

/-- The account after the next library failed. -/
theorem Account.fail {c : Catalog} {order : List Library} {es es' going last : List Event}
    {outcomes : OrderedMap Library Outcome} {built rest : List Library} {l : Library}
    {way : List LibraryState} (hacc : Account c order es outcomes built [] (l :: rest))
    (hnodup : order.Nodup) (hfirst : Catalog.PrerequisitesFirst c order order)
    (honly : Only l es') (hway : way <+: [.building, .installing])
    (hes' : entered es' l = .planning :: way ++ [.failed]) (hsplit : es' = going ++ last)
    (hgoing : Unfailed going) (hlast : Quiet last.tail) (cause : Cause) :
    Account c order (es ++ es') (outcomes.insert l (.failed cause)) built [l] rest := by
  obtain ⟨hbuilt, hrest, hent, hkeys, hstarts⟩ := hacc.insert hnodup hfirst honly (.failed cause)
  refine ⟨hacc.split, hbuilt, ?_, hrest, hkeys, hstarts, es ++ going, last, ?_,
    hacc.unfailed.append hgoing, hlast, nofun⟩
  · intro d hd
    obtain rfl := List.mem_singleton.1 hd
    refine ⟨⟨way, hway, hent.trans hes'⟩, cause, ?_⟩
    rw [OrderedMap.find?_insert, if_pos rfl]
  · rw [hsplit, List.append_assoc]

namespace Builder

variable {b : Builder σ} {site : Site} {order : List Library}

/-- A library whose events end in `done` is done on the bench. -/
theorem stateOf_of_entered {start bench : Bench σ} {es : List Event} {l : Library}
    (h : start.After es bench) (hl : entered es l = [.planning, .building, .installing, .done]) :
    bench.stateOf l = .done := by
  rw [Bench.stateOf, h.states, find?_replay, hl]
  rfl

/-- The first library of the order that is not built is ready. -/
theorem find?_isReady {start bench : Bench σ} {es : List Event}
    {outcomes : OrderedMap Library Outcome} {built rest : List Library} {l : Library}
    (hfirst : Catalog.PrerequisitesFirst b.catalog order order) (hafter : start.After es bench)
    (hacc : Account b.catalog order es outcomes built [] (l :: rest)) :
    (l :: rest).find? (b.isReady order bench) = some l := by
  refine List.find?_cons_of_pos ?_
  simp only [isReady, List.all_eq_true, Bool.or_eq_true, decide_eq_true_eq]
  intro d hd
  by_cases hord : d ∈ order
  · have hbuilt : d ∈ built := hfirst built l rest hacc.split d hd hord
    exact .inr (stateOf_of_entered hafter (hacc.built_done d hbuilt).1)
  · exact .inl hord

/-- The loop ends when the build was asked to stop. -/
theorem buildEach_of_cancelled {pending : List Library} {outcomes : OrderedMap Library Outcome} {bench : Bench σ}
    (hc : bench.cancelled = true) :
    b.buildEach site order pending outcomes bench = (.ok outcomes, bench) := by
  rw [buildEach, Effect.bind_of_ok (Effect.get_apply bench), if_pos hc]
  rfl

/-- The loop ends when no library is ready. -/
theorem buildEach_of_not_ready {pending : List Library} {outcomes : OrderedMap Library Outcome} {bench : Bench σ}
    (hc : bench.cancelled = false) (hfind : pending.find? (b.isReady order bench) = none) :
    b.buildEach site order pending outcomes bench = (.ok outcomes, bench) := by
  rw [buildEach, Effect.bind_of_ok (Effect.get_apply bench)]
  simp only [hc, Bool.false_eq_true, if_false]
  generalize pending.find? (b.isReady order bench) = found at hfind ⊢
  subst hfind
  rfl

/-- What the loop does when a library is ready and nobody asked the build to stop. -/
theorem buildEach_of_find? {pending : List Library} {l : Library}
    {outcomes : OrderedMap Library Outcome} {bench : Bench σ} (hc : bench.cancelled = false)
    (hfind : pending.find? (b.isReady order bench) = some l) :
    b.buildEach site order pending outcomes bench = (do
      let outcome ← Run.attempt b.runner site l
      let outcomes := outcomes.insert l outcome
      if outcome.ok then b.buildEach site order (pending.erase l) outcomes
      else return outcomes : Work σ (OrderedMap Library Outcome)) bench := by
  rw [buildEach, Effect.bind_of_ok (Effect.get_apply bench)]
  simp only [hc, Bool.false_eq_true, if_false]
  generalize pending.find? (b.isReady order bench) = found at hfind ⊢
  subst hfind
  rfl

/-- The loop of a run extends an account in which nothing failed to one in which at most one
library did; it leaves none pending unless one failed or the build was asked to stop. -/
theorem buildEach_spec {start : Bench σ} (hcat : site.catalog = b.catalog)
    (hentries : ∀ l ∈ order, ∃ e, b.catalog.find? l = some e) (hnodup : order.Nodup)
    (hfirst : Catalog.PrerequisitesFirst b.catalog order order) (waiting : List Library) :
    ∀ {built : List Library} {es : List Event} {bench bench' : Bench σ}
      {outcomes outcomes' : OrderedMap Library Outcome}, start.After es bench →
      Account b.catalog order es outcomes built [] waiting →
      b.buildEach site order waiting outcomes bench = (.ok outcomes', bench') →
      ∃ es' built' stopped waiting', start.After es' bench' ∧
        Account b.catalog order es' outcomes' built' stopped waiting' ∧ stopped.length ≤ 1 ∧
        (bench'.cancelled = false → stopped = [] → waiting' = []) := by
  induction waiting with
  | nil =>
    intro built es bench bench' outcomes outcomes' hafter hacc h
    have hend : b.buildEach site order [] outcomes bench = (.ok outcomes, bench) := by
      cases hc : bench.cancelled with
      | true => exact buildEach_of_cancelled hc
      | false => exact buildEach_of_not_ready hc rfl
    rw [hend] at h
    cases h
    exact ⟨es, built, [], [], hafter, hacc, by simp, fun _ _ => rfl⟩
  | cons l rest ih =>
    intro built es bench bench' outcomes outcomes' hafter hacc h
    have hsplit := hacc.split
    cases hcancelled : bench.cancelled with
    | true =>
      rw [buildEach_of_cancelled hcancelled] at h
      cases h
      refine ⟨es, built, [], l :: rest, hafter, hacc, by simp, fun hc => ?_⟩
      rw [hcancelled] at hc
      cases hc
    | false =>
      rw [buildEach_of_find? hcancelled (find?_isReady hfirst hafter hacc)] at h
      obtain ⟨outcome, bench₁, hattempt, h⟩ := Effect.bind_ok h
      obtain ⟨e, he⟩ := hentries l (hsplit ▸ by simp)
      have hentry : site.entry l = .ok e := by
        rw [Site.entry, hcat, Catalog.entry, he]
        rfl
      obtain ⟨es', hafter', honly, hends⟩ := Run.attempt_spec hentry hattempt
      rcases hends with ⟨files, rfl, hes'⟩ |
        ⟨cause, way, going, last, rfl, hway, hes', hsplit', hgoing, hlast⟩
      · -- built: the account goes on with one library more
        rw [List.erase_cons_head] at h
        have hacc' := hacc.succeed hnodup hfirst honly hes' files
        exact ih (hafter.trans hafter') hacc' h
      · -- failed: the loop ends
        have hacc' := hacc.fail hnodup hfirst honly hway hes' hsplit' hgoing hlast cause
        cases h
        exact ⟨_, built, [l], rest, hafter.trans hafter', hacc', by simp, by simp⟩

/-- A run builds the libraries of an order that the catalog gives. -/
theorem resolve_spec {request : Option (List Library)} (h : b.resolve request = .ok order) :
    order.Nodup ∧ (∀ l ∈ order, ∃ e, b.catalog.find? l = some e) ∧
      Catalog.PrerequisitesFirst b.catalog order order := by
  obtain ⟨wanted, hwanted⟩ : ∃ wanted, b.catalog.order wanted = .ok order := by
    obtain ⟨-, -, h⟩ := Effect.except_bind_ok h
    split at h
    · cases h
    · split at h
      · obtain ⟨closed, -, h⟩ := Effect.except_bind_ok h
        exact ⟨closed, h⟩
      · exact ⟨_, h⟩
  obtain ⟨hnodup, hmem, hentries, hfirst⟩ := Catalog.order_spec hwanted
  refine ⟨hnodup, fun l hl => hentries l ((hmem l).1 hl), ?_⟩
  intro before l after hsplit d hd hord
  exact hfirst before l after hsplit d hd ((hmem d).1 hord)

/-- Every library of an account goes through a life cycle. -/
theorem isLifeCycle_of_account {c : Catalog} {es : List Event}
    {outcomes : OrderedMap Library Outcome} {built stopped waiting : List Library}
    (hacc : Account c order es outcomes built stopped waiting) {l : Library} (hl : l ∈ order) :
    IsLifeCycle (visited es l) := by
  rw [hacc.split, List.mem_append, List.mem_append] at hl
  unfold visited
  rcases hl with hl | hl | hl
  · rw [(hacc.built_done l hl).1]
    exact .inl ⟨List.cons_ne_nil _ _, List.prefix_rfl⟩
  · obtain ⟨⟨way, hway, hent⟩, -⟩ := hacc.stopped_failed l hl
    refine .inr ⟨.pending :: .planning :: way, ?_, by simp, ?_, by rw [hent]; rfl⟩
    · obtain ⟨rest, hrest⟩ := hway
      refine ⟨rest ++ [.done], ?_⟩
      rw [List.cons_append, List.cons_append, ← List.append_assoc, hrest]
      rfl
    · intro hdone
      have hdone : LibraryState.done ∈ way := by simpa using hdone
      have := hway.subset hdone
      simp at this
  · rw [hacc.waiting_pending l hl]
    exact .inl ⟨List.cons_ne_nil _ _, by simp [LibraryState.working]⟩

end Builder

end Sysroot

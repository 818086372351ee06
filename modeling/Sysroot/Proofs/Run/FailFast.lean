import Sysroot.Proofs.Run.LifeCycle

/-!
# How a run ends

A run that returns a result leaves in its journal the account of its loop.  From it follow the
states and outcomes of the result: the first libraries of the order are done, at most the next
one failed, and the rest was not started.  When nobody asked the build to stop, the state of
the run says which of the two it was.
-/

namespace Sysroot.Builder

open History

variable {σ : Type} {b : Builder σ}

/-- At the start of a run every library of its order is pending. -/
theorem find?_pending {order : List Library} {l : Library} (hl : l ∈ order) :
    (OrderedMap.ofList (order.map fun l => (l, LibraryState.pending))).find? l = some .pending := by
  rw [OrderedMap.ofList, OrderedMap.find?_insertAll, ← List.map_reverse]
  have hmem : l ∈ order.reverse := List.mem_reverse.2 hl
  generalize order.reverse = rest at hmem
  induction rest with
  | nil => cases hmem
  | cons d rest ih =>
    by_cases hd : d = l
    · simp [hd]
    · have hrest : l ∈ rest := (List.mem_cons.1 hmem).resolve_left (Ne.symm hd)
      rw [List.map_cons, List.find?_cons_of_neg (by simp [hd])]
      exact ih hrest

/-- The bench on which the libraries of a run start: every one of its order is pending. -/
def opened (order : List Library) (bench : Bench σ) : Bench σ :=
  { bench with states := .ofList (order.map fun l => (l, .pending)) }

/-- The event that starts a run. -/
def opening (b : Builder σ) (order : List Library) : Event :=
  .started order b.toolchain.target b.settings.workers

/-- What a run that returns a result has done: it found an order, made its directories, went
through its loop, and reported what came of it. -/
theorem run_ok {request : Option (List Library)} {bench bench' : Bench σ} {r : RunResult}
    (h : b.run request bench = (.ok r, bench')) :
    ∃ order platformFile outcomes bench₁ bench₂ ending,
      b.resolve request = .ok order ∧ b.validate order = .ok () ∧
      Work.onTree (b.prepareRoots order) ((opened order bench).note (b.opening order)) =
        (.ok platformFile, bench₁) ∧
      b.buildEach (b.site platformFile) order order .empty bench₁ = (.ok outcomes, bench₂) ∧
      bench'.journal = bench₂.journal ++ [.finished (endState bench₂ outcomes) ending] ∧
      (∃ result journal, result.state = endState bench₂ outcomes ∧
        b.writeReport result journal bench₂.tree = (.ok (), bench'.tree)) ∧
      r = { order := order, state := endState bench₂ outcomes, states := bench₂.states,
            outcomes := outcomes, reportPath := some b.reportPath } := by
  obtain ⟨order, bench₀, hread, hrun⟩ := Effect.bind_ok h
  obtain ⟨hresolve, hbench₀⟩ := Work.ofExcept_ok hread
  rw [hbench₀] at hrun
  obtain ⟨_, bench₁, hvalidate, hrun⟩ := Effect.bind_ok hrun
  obtain ⟨hvalidate, hbench₁⟩ := Work.ofExcept_ok hvalidate
  rw [hbench₁, Effect.bind_of_ok (Effect.modify_apply _ _)] at hrun
  obtain ⟨_, bench₂, hnote, hrun⟩ := Effect.bind_ok hrun
  obtain ⟨platformFile, bench₃, hroots, hrun⟩ := Effect.bind_ok hrun
  obtain ⟨outcomes, bench₄, hloop, hrun⟩ := Effect.bind_ok hrun
  rw [Effect.bind_of_ok (Effect.get_apply _)] at hrun
  obtain ⟨_, bench₅, hfinish, hrun⟩ := Effect.bind_ok hrun
  rw [Effect.bind_of_ok (Effect.get_apply _)] at hrun
  obtain ⟨_, bench₆, hreport, hrun⟩ := Effect.bind_ok hrun
  have hbench : bench₆ = bench' := congrArg Prod.snd hrun
  have hresult := Except.ok.inj (congrArg Prod.fst hrun)
  have hstart : (opened order bench).note (b.opening order) = bench₂ := congrArg Prod.snd hnote
  have hended := congrArg (fun done => done.2.journal) hfinish
  have hjournal : bench'.journal = bench₅.journal := by
    rw [← hbench, (Work.after_of_onTree hreport).journal, List.append_nil]
  have hwritten : ∃ result journal, result.state = endState bench₄ outcomes ∧
      b.writeReport result journal bench₄.tree = (.ok (), bench'.tree) := by
    have htree : bench₅.tree = bench₄.tree := congrArg (fun done => done.2.tree) hfinish.symm
    rw [← hbench, ← htree]
    exact ⟨_, _, rfl, (Work.onTree_eq hreport).1⟩
  rw [← hstart] at hroots
  exact ⟨order, platformFile, outcomes, bench₃, bench₄, _, Effect.mapError_ok hresolve,
    Effect.mapError_ok hvalidate, hroots, hloop, hjournal.trans hended.symm, hwritten,
    hresult.symm⟩

/-- A run starts with the account in which nothing is built. -/
theorem account_opening (b : Builder σ) (order : List Library) :
    Account b.catalog order [b.opening order] .empty [] [] order := by
  have hquiet : Quiet [b.opening order] := fun e he => List.mem_singleton.1 he ▸ rfl
  refine ⟨rfl, nofun, nofun, fun l _ => hquiet.entered_eq_nil l, rfl, ?_,
    ⟨[b.opening order], [], rfl, hquiet.unfailed, quiet_nil, fun _ => rfl⟩⟩
  intro earlier l before later heq
  have hmem : Event.transition l before .planning ∈ [b.opening order] := heq ▸ by simp
  cases List.mem_singleton.1 hmem

/-- A run that returns a result leaves the account of its loop in the journal. -/
theorem run_account {request : Option (List Library)} {bench bench' : Bench σ} {r : RunResult}
    (h : b.run request bench = (.ok r, bench')) :
    ∃ es built stopped waiting, bench'.journal = bench.journal ++ es ∧
      Account b.catalog r.order es r.outcomes built stopped waiting ∧ stopped.length ≤ 1 ∧
      r.order.Nodup ∧ (∀ l ∈ r.order, r.states.find? l = some (standing es l)) ∧
      ∃ cancelled : Bool, (cancelled = true → bench.cancelled = true ∨ .cancelRequested ∈ es) ∧
        (cancelled = false → stopped = [] → waiting = []) ∧
        r.state = (if cancelled then .cancelled
          else if r.outcomes.values.all Outcome.ok then .done else .aborted) := by
  obtain ⟨order, platformFile, outcomes, bench₁, bench₂, ending, hresolve, -, hroots, hloop,
    hjournal, -, rfl⟩ := run_ok h
  obtain ⟨hnodup, hentries, hfirst⟩ := resolve_spec hresolve
  have hafter : (opened order bench).After [b.opening order] bench₁ :=
    (Bench.After.note _ rfl).trans (Work.after_of_onTree hroots)
  obtain ⟨es, built, stopped, waiting, hafter', hacc, hstopped, hwaiting⟩ :=
    buildEach_spec rfl hentries hnodup hfirst order hafter (account_opening b order) hloop
  have hquiet : Quiet [.finished (endState bench₂ outcomes) ending] := fun e he =>
    List.mem_singleton.1 he ▸ rfl
  refine ⟨es ++ [.finished (endState bench₂ outcomes) ending], built, stopped, waiting, ?_,
    hacc.append_quiet hquiet, hstopped, hnodup, ?_, bench₂.cancelled, ?_, hwaiting, rfl⟩
  · rw [hjournal, hafter'.journal, List.append_assoc]
    rfl
  · intro l hl
    show bench₂.states.find? l = _
    rw [standing_append_of_nil (hquiet.entered_eq_nil l), hafter'.states, find?_replay,
      show (opened order bench).states.find? l = _ from find?_pending hl, standing]
    cases (entered es l).getLast? <;> rfl
  · intro hc
    exact (hafter'.cancelled hc).imp id (List.mem_append_left _)

/-! ## What an account says of the states and the outcomes -/

variable {c : Catalog} {order built stopped waiting : List Library} {es : List Event}
  {outcomes : OrderedMap Library Outcome} {l : Library}

theorem standing_of_built (h : Account c order es outcomes built stopped waiting)
    (hl : l ∈ built) : standing es l = .done := by
  rw [standing, (h.built_done l hl).1]
  rfl

theorem standing_of_stopped (h : Account c order es outcomes built stopped waiting)
    (hl : l ∈ stopped) : standing es l = .failed := by
  obtain ⟨way, -, hent⟩ := (h.stopped_failed l hl).1
  rw [standing, hent, List.getLast?_concat]
  rfl

theorem standing_of_waiting (h : Account c order es outcomes built stopped waiting)
    (hl : l ∈ waiting) : standing es l = .pending := by
  rw [standing, h.waiting_pending l hl]
  rfl

/-- Every outcome is a success as long as nothing failed. -/
theorem all_ok_iff (h : Account c order es outcomes built stopped waiting) :
    outcomes.values.all Outcome.ok = true ↔ stopped = [] := by
  have hvalue : ∀ l o, outcomes.find? l = some o → o ∈ outcomes.values := fun l o ho =>
    List.mem_map.2 ⟨(l, o), OrderedMap.mem_pairs_iff.2 ho, rfl⟩
  rw [List.all_eq_true]
  constructor
  · intro hall
    refine List.eq_nil_iff_forall_not_mem.2 fun l hl => ?_
    obtain ⟨-, cause, hcause⟩ := h.stopped_failed l hl
    cases hall _ (hvalue l _ hcause)
  · rintro rfl o ho
    obtain ⟨⟨l, o'⟩, hpair, rfl⟩ := List.mem_map.1 ho
    have hkey : l ∈ outcomes.keys := List.mem_map_of_mem hpair
    rw [h.keys, List.append_nil] at hkey
    obtain ⟨-, files, hfiles⟩ := h.built_done l hkey
    rw [OrderedMap.mem_pairs_iff.1 hpair] at hfiles
    cases hfiles
    rfl

/-- The failure of a run is its only failed library. -/
theorem failure?_of_stopped {r : RunResult} {cause : Cause}
    (h : Account c r.order es r.outcomes built [l] waiting)
    (hl : r.outcomes.find? l = some (.failed cause)) : r.failure? = some (l, cause) := by
  rw [RunResult.failure?, h.split, List.findSome?_append, List.findSome?_eq_none_iff.2]
  · rw [Option.none_or, List.singleton_append, List.findSome?_cons, hl]
  · intro d hd
    obtain ⟨-, files, hfiles⟩ := h.built_done d hd
    rw [hfiles]

/-- What a run that returns a result does, whatever its tools do and whenever it is asked to
stop.  The events that it adds to the journal take every library through a life cycle, to the
state that the result gives; a library starts after its prerequisites in the run are done, and
none moves after one failed.  The order divides into the libraries that are done, at most one
that failed, and those that are pending, with an outcome for just the former two.  Unless the
build was asked to stop, the run is done when all of its libraries are, and aborted when one
failed, which then is the failure of the result. -/
theorem run_failFast {request : Option (List Library)} {bench bench' : Bench σ} {r : RunResult}
    (h : b.run request bench = (.ok r, bench')) :
    ∃ events, bench'.journal = bench.journal ++ events ∧
      (∀ l ∈ r.order, IsLifeCycle (visited events l) ∧
        r.states.find? l = some (standing events l)) ∧
      StartsReady b.catalog r.order events ∧
      (∀ earlier l before later,
        events = earlier ++ .transition l before .failed :: later → Quiet later) ∧
      (∃ built stopped waiting, r.order = built ++ (stopped ++ waiting) ∧ r.order.Nodup ∧
        stopped.length ≤ 1 ∧ r.outcomes.keys = built ++ stopped ∧
        (∀ l ∈ built, r.states.find? l = some .done ∧
          ∃ files, r.outcomes.find? l = some (.succeeded files)) ∧
        (∀ l ∈ stopped, r.states.find? l = some .failed ∧
          ∃ cause, r.outcomes.find? l = some (.failed cause)) ∧
        ∀ l ∈ waiting, r.states.find? l = some .pending) ∧
      (bench.cancelled = false → .cancelRequested ∉ events →
        (r.state = .done ↔ ∀ l ∈ r.order, r.states.find? l = some .done) ∧
        (r.state = .aborted ↔ ∃ l ∈ r.order, r.states.find? l = some .failed) ∧
        (∀ l ∈ r.order, r.states.find? l = some .failed →
          ∃ cause, r.failure? = some (l, cause)) ∧
        ∀ l ∈ r.order, r.states.find? l ∈ [some .pending, some .done, some .failed]) := by
  obtain ⟨es, built, stopped, waiting, hjournal, hacc, hstopped, hnodup, hstates, cancelled,
    hcancelled, hwaiting, hstate⟩ := run_account h
  have hmem : ∀ l, l ∈ r.order ↔ l ∈ built ∨ l ∈ stopped ∨ l ∈ waiting := fun l => by
    rw [hacc.split, List.mem_append, List.mem_append]
  have hdone : ∀ l ∈ built, r.states.find? l = some .done := fun l hl => by
    rw [hstates l ((hmem l).2 (.inl hl)), standing_of_built hacc hl]
  have hfailed : ∀ l ∈ stopped, r.states.find? l = some .failed := fun l hl => by
    rw [hstates l ((hmem l).2 (.inr (.inl hl))), standing_of_stopped hacc hl]
  have hpending : ∀ l ∈ waiting, r.states.find? l = some .pending := fun l hl => by
    rw [hstates l ((hmem l).2 (.inr (.inr hl))), standing_of_waiting hacc hl]
  -- only the libraries that failed are in that state
  have hstopped' : ∀ l ∈ r.order, r.states.find? l = some .failed → l ∈ stopped := by
    intro l hl hf
    rcases (hmem l).1 hl with hl | hl | hl
    · rw [hdone l hl] at hf
      cases hf
    · exact hl
    · rw [hpending l hl] at hf
      cases hf
  refine ⟨es, hjournal, fun l hl => ⟨isLifeCycle_of_account hacc hl, hstates l hl⟩, hacc.ready,
    fun _ _ _ _ heq => hacc.quiet_of_failed heq,
    ⟨built, stopped, waiting, hacc.split, hnodup, hstopped, hacc.keys,
      fun l hl => ⟨hdone l hl, (hacc.built_done l hl).2⟩,
      fun l hl => ⟨hfailed l hl, (hacc.stopped_failed l hl).2⟩, hpending⟩, ?_⟩
  intro hnot hnone
  have hc : cancelled = false := by
    refine Bool.eq_false_iff.2 fun hc => ?_
    rcases hcancelled hc with hbench | hes
    · rw [hnot] at hbench
      cases hbench
    · exact hnone hes
  rw [hc, if_neg Bool.false_ne_true] at hstate
  refine ⟨?_, ?_, ?_, ?_⟩
  · -- done: nothing failed, so nothing waits
    have hall : r.state = .done ↔ stopped = [] := by
      rw [hstate, ← all_ok_iff hacc]
      split <;> simp_all
    rw [hall]
    constructor
    · intro hnil l hl
      rcases (hmem l).1 hl with hl | hl | hl
      · exact hdone l hl
      · rw [hnil] at hl
        cases hl
      · rw [hwaiting hc hnil] at hl
        cases hl
    · intro hdone'
      refine List.eq_nil_iff_forall_not_mem.2 fun l hl => ?_
      have hf := hfailed l hl
      rw [hdone' l ((hmem l).2 (.inr (.inl hl)))] at hf
      cases hf
  · have haborted : r.state = .aborted ↔ stopped ≠ [] := by
      rw [hstate, ne_eq, ← all_ok_iff hacc]
      split <;> simp_all
    rw [haborted]
    constructor
    · intro hne
      obtain ⟨l, hl⟩ := List.exists_mem_of_ne_nil stopped hne
      exact ⟨l, (hmem l).2 (.inr (.inl hl)), hfailed l hl⟩
    · rintro ⟨l, hl, hf⟩
      exact List.ne_nil_of_mem (hstopped' l hl hf)
  · intro l hl hf
    have hin := hstopped' l hl hf
    have hsingle : stopped = [l] := by
      cases stopped with
      | nil => cases hin
      | cons d rest =>
        cases rest with
        | nil => rw [List.mem_singleton.1 hin]
        | cons d' rest =>
          rw [List.length_cons, List.length_cons] at hstopped
          omega
    obtain ⟨-, cause, hcause⟩ := hacc.stopped_failed l hin
    rw [hsingle] at hacc
    exact ⟨cause, failure?_of_stopped hacc hcause⟩
  · intro l hl
    rcases (hmem l).1 hl with hl | hl | hl
    · simp [hdone l hl]
    · simp [hfailed l hl]
    · simp [hpending l hl]

/-- A library whose headers are all of it. -/
def headersOf (l : Library) (source : String) (requires : List Library) : Catalog.Entry where
  library := l
  role := "headers"
  kind := .native
  recipe := some .headers
  source := source
  publicHeaders := "include"
  copiesPublicHeaders := true
  requires := requires

/-- Three libraries of headers, each of which requires the one before. -/
def headerChain : Builder Unit where
  settings :=
    { sourcesDir := ⟨.root, ["src"]⟩, buildRoot := ⟨.root, ["build"]⟩, sysrootDir := ⟨.root, ["s"]⟩,
      includePrerequisites := false }
  toolchain :=
    { triple := ⟨"wasm32", "unknown", "unknown", none⟩, compiler := ⟨.root, ["cc"]⟩,
      linker := ⟨.root, ["ld"]⟩, archiver := ⟨.root, ["ar"]⟩ }
  catalog := .ofList [(.compat, headersOf .compat "compat" []),
    (.libc, headersOf .libc "libc" [.compat]),
    (.zlib, headersOf .zlib "zlib" [.libc])]
  runner := ⟨fun _ t s => ⟨.error .notText, t, s, false⟩, id⟩

/-- Sources for the first of them alone. -/
def firstSources : Tree where
  entries := [(["src"], .dir), (["src", "compat"], .dir), (["src", "compat", "include"], .dir),
    (["src", "compat", "include", "v"], .file [] false)]
  nodup := by decide
  root_free := by decide
  housed := by decide
  named := by decide +kernel
  home := []

theorem resolve_headerChain :
    headerChain.resolve (some [.zlib, .libc, .compat]) = .ok [.compat, .libc, .zlib] := by
  have hcycle : headerChain.catalog.cycle? = none := by
    simp [Catalog.cycle?, headerChain, headersOf, OrderedMap.ofList, OrderedMap.keys,
      OrderedMap.insertAll, OrderedMap.insert, OrderedMap.insertPairs, OrderedMap.empty,
      Catalog.searchEach, Catalog.searchFrom, Catalog.requires, OrderedMap.find?,
      OrderedMap.contains]
  have hcheck : headerChain.catalog.check = .ok () := by
    rw [Catalog.check, hcycle]
    rfl
  have hplaced : headerChain.catalog.placedOf [.zlib, .libc, .compat] = [.compat, .libc, .zlib] := by
    decide +kernel
  have horder : headerChain.catalog.order [.zlib, .libc, .compat] =
      .ok [.compat, .libc, .zlib] := by
    rw [Catalog.order_eq (by decide), hplaced, if_pos (by decide)]
  rw [resolve, hcheck]
  exact horder

theorem run_failFast_headerChain :
    ∃ r bench',
      headerChain.run (some [.zlib, .libc, .compat]) { tree := firstSources, memory := () } =
        (.ok r, bench') ∧
      (∀ l ∈ r.order, IsLifeCycle (visited bench'.journal l)) ∧
      StartsReady headerChain.catalog r.order bench'.journal := by
  have hreturns : (headerChain.run (some [.zlib, .libc, .compat])
      { tree := firstSources, memory := () }).1.toOption.isSome = true := by
    unfold run
    rw [resolve_headerChain]
    decide +kernel
  rcases hrun :
      headerChain.run (some [.zlib, .libc, .compat]) { tree := firstSources, memory := () } with
    ⟨fault | r, bench'⟩
  · rw [hrun] at hreturns
    cases hreturns
  obtain ⟨events, hjournal, hcycles, hready, -⟩ := run_failFast hrun
  rw [List.nil_append] at hjournal
  refine ⟨r, bench', rfl, ?_⟩
  rw [hjournal]
  exact ⟨fun l hl => (hcycles l hl).1, hready⟩

end Sysroot.Builder

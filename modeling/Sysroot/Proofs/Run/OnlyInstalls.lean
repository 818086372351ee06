import Sysroot.Proofs.Install.Ownership
import Sysroot.Proofs.Run.Deliveries
import Sysroot.Proofs.Run.FailFast

/-!
# A run changes its sysroot by installations only

Whatever becomes of the libraries of a run that returns a result, the files of its sysroot are those
that the deliveries of its steps lead to (`Builder.run_ledger`).  The account of the run tells which
of these delivered a library as a whole: one for each library that is done, and none for another one
(`Builder.wholes_of_run`).  Headers alone leave `lib` as it is, and bring nothing below it into the
manifest of their library (`Leads.gainsNone`).
-/

namespace Sysroot

open Effect History Sysroot.Tree Sysroot.Tree.Action Sysroot.Install

variable {s : Site} {order : List Library} {R B : Location} {k j : Nat} {root : Path}
  {t t' t'' : Tree} {l : Library} {d : Delivery} {ds : List Delivery}

/-! ## Headers alone -/

/-- What is asked for goes below `include`, or below `lib` if it is staged. -/
theorem Install.Request.Inward.head_mapping {r : Request} {m : OrderedMap String Path}
    (hr : r.Inward) (h : r.mapping l t = (.ok m, t')) : ∀ item ∈ m.pairs,
      (namesOf item.1).head? = some "include" ∨
        r.staged ≠ [] ∧ (namesOf item.1).head? = some "lib" := by
  intro item hitem
  obtain ⟨hheaded | ⟨hstaged, hentry⟩, -⟩ := hr.mapping_ok h item hitem
  · exact .inl hheaded.1
  · exact hentry.place.section_.imp id fun hlib => ⟨hstaged, hlib⟩

theorem Install.Request.Inward.head_of_headers {r : Request} {m : OrderedMap String Path}
    (hr : r.Inward) (h : r.mapping l t = (.ok m, t')) (hheaders : r.portion = .headers) :
    ∀ item ∈ m.pairs, (namesOf item.1).head? = some "include" := by
  intro item hitem
  refine (hr.head_mapping h item hitem).resolve_right fun ⟨hstaged, _⟩ => ?_
  cases r with
  | stage source => cases hheaders
  | headers dir place => exact hstaged rfl

theorem head?_of_front {names names' : List String} {name : String} (hpre : names <+: names')
    (hhead : names.head? = some name) : names'.head? = some name := by
  obtain ⟨rest, rfl⟩ := hpre
  cases names with
  | nil => cases hhead
  | cons first more => exact hhead

namespace Delivery.Carried

variable (h : d.Carried s R k) (hin : ∀ l e, s.catalog.find? l = some e → e.Inward)

include h hin

/-- The headers of a library that are delivered alone leave `lib` as it is. -/
theorem sameFiles_lib (hheaders : d.request.portion = .headers) :
    SameFiles (R ++ ["lib"]) d.before d.after := by
  obtain ⟨m, hm, -, hinst⟩ := h.carried
  have hinward := h.requested.inward hin
  intro y
  rw [List.append_assoc]
  refine (hinst.others (["lib"] ++ y) (fun key hkey hpre => ?_) ?_).imp id fun hnew =>
    ⟨hnew.1, hnew.2.1⟩
  · obtain ⟨item, hitem, rfl⟩ := List.mem_map.1 hkey
    exact absurd (head?_of_front hpre (hinward.head_of_headers hm hheaders item hitem)) (by simp)
  · exact fun heq => absurd (List.cons.inj heq).1 (by decide)

/-- A delivery leaves the manifests of other libraries as they are. -/
theorem get?_manifest (hl : l ≠ d.library) :
    d.after.get? (R ++ manifestNames l) = d.before.get? (R ++ manifestNames l) ∨
      d.before.get? (R ++ manifestNames l) = none ∧
        d.after.get? (R ++ manifestNames l) = some .dir := by
  obtain ⟨m, hm, -, hinst⟩ := h.carried
  refine (hinst.others (manifestNames l) (fun key hkey hpre => ?_) ?_).imp id fun hnew =>
    ⟨hnew.1, hnew.2.1⟩
  · obtain ⟨item, hitem, rfl⟩ := List.mem_map.1 hkey
    rcases (h.requested.inward hin).head_mapping hm item hitem with hhead | ⟨-, hhead⟩
    · exact absurd (head?_of_front hpre hhead) (by simp [manifestNames])
    · exact absurd (head?_of_front hpre hhead) (by simp [manifestNames])
  · exact fun heq => hl (manifestNames_injective heq)

end Delivery.Carried

/-! ## Manifests -/

/-- Whether the manifest of a library, if it can be read, could be read before, and lists nothing
below `lib` that it did not list then. -/
def GainsNone (root : Path) (R : Location) (l : Library) (t t' : Tree) : Prop :=
  ∀ files, manifestAt root l (t'.get? (R ++ manifestNames l)) = .ok files →
    ∃ before, manifestAt root l (t.get? (R ++ manifestNames l)) = .ok before ∧
      ∀ f ∈ files, (namesOf f).head? = some "lib" → f ∈ before

namespace GainsNone

theorem trans (h : GainsNone root R l t t') (h' : GainsNone root R l t' t'') :
    GainsNone root R l t t'' := by
  intro files hfiles
  obtain ⟨files', hfiles', hmem'⟩ := h' files hfiles
  obtain ⟨before, hbefore, hmem⟩ := h files' hfiles'
  exact ⟨before, hbefore, fun f hf hlib => hmem f (hmem' f hf hlib) hlib⟩

theorem of_same (h : t'.get? (R ++ manifestNames l) = t.get? (R ++ manifestNames l) ∨
    t.get? (R ++ manifestNames l) = none ∧ t'.get? (R ++ manifestNames l) = some .dir) :
    GainsNone root R l t t' := by
  intro files hfiles
  rcases h with heq | ⟨-, hdir⟩
  · exact ⟨files, heq ▸ hfiles, fun f hf _ => hf⟩
  · rw [hdir] at hfiles
    cases hfiles

/-- The manifest of a library gains nothing below `lib` by a delivery of its headers, nor by one of
another library. -/
theorem of_carried (h : d.Carried s R k) (hin : ∀ l e, s.catalog.find? l = some e → e.Inward)
    (hheaders : d.library = l → d.request.portion = .headers) :
    GainsNone s.root R l d.before d.after := by
  by_cases hl : d.library = l
  · obtain ⟨m, hm, -, hinst⟩ := h.carried
    obtain ⟨before, executable, hbefore, hafter⟩ := hinst.manifest
    subst hl
    intro files hfiles
    rw [hafter] at hfiles
    have hwritten := (filesOf_manifestBytes s.root d.library (before ++ m.keys)).symm.trans hfiles
    refine ⟨before, hbefore, fun f hf hlib => ?_⟩
    rw [← Except.ok.inj hwritten, mem_sortedSet, mem_sortedSet, List.mem_append] at hf
    rcases hf with hf | hkey
    · exact hf
    · obtain ⟨item, hitem, rfl⟩ := List.mem_map.1 hkey
      have hhead := (h.requested.inward hin).head_of_headers hm (hheaders rfl) item hitem
      exact absurd (hhead.symm.trans hlib) (by decide)
  · exact of_same (h.get?_manifest hin (Ne.symm hl))

end GainsNone

/-- Deliveries of which those of a library are headers alone bring nothing below `lib` into its
manifest. -/
theorem Leads.gainsNone (hleads : Leads R t ds t') (hcarried : ∀ d ∈ ds, d.Carried s R k)
    (hin : ∀ l e, s.catalog.find? l = some e → e.Inward)
    (hheaders : ∀ d ∈ ds, d.library = l → d.request.portion = .headers) :
    GainsNone s.root R l t t' := by
  induction ds generalizing t with
  | nil => exact .of_same (hleads _)
  | cons d ds ih =>
    have hfirst : GainsNone s.root R l d.before d.after :=
      .of_carried (hcarried d List.mem_cons_self) hin (hheaders d List.mem_cons_self)
    exact (GainsNone.of_same (hleads.1 _)).trans (hfirst.trans
      (ih hleads.2 (fun d hd => hcarried d (List.mem_cons_of_mem _ hd))
        fun d hd => hheaders d (List.mem_cons_of_mem _ hd)))

/-! ## Whole libraries -/

/-- The libraries that were delivered as a whole. -/
def wholes (ds : List Delivery) : List Library :=
  (ds.filter fun d => d.request.portion = .whole).map Delivery.library

theorem mem_wholes : l ∈ wholes ds ↔ ∃ d ∈ ds, d.request.portion = .whole ∧ d.library = l := by
  simp [wholes, and_assoc]

theorem count_wholes (ds : List Delivery) (l : Library) :
    (wholes ds).count l = (ds.map Delivery.notice).count (l, .whole) := by
  induction ds with
  | nil => rfl
  | cons d ds ih =>
    rw [List.map_cons, List.count_cons, ← ih, wholes, wholes, List.filter_cons]
    by_cases hwhole : d.request.portion = .whole
    · simp [hwhole, Delivery.notice, List.count_cons]
    · simp [hwhole, Delivery.notice]

/-- A library is told to be delivered as a whole when it becomes done. -/
theorem delivers?_whole {e : Event} : e.delivers? = some (l, .whole) ↔ e.move? = some (l, .done) := by
  cases e with
  | transition l' before after => cases after <;> simp [Event.delivers?, Event.move?]
  | _ => simp [Event.delivers?, Event.move?]

theorem count_delivers (es : List Event) (l : Library) :
    (es.filterMap Event.delivers?).count (l, .whole) = (entered es l).count .done := by
  rw [List.count_filterMap, entered, List.count_filterMap]
  refine List.countP_congr fun e _ => ?_
  rw [beq_iff_eq, beq_iff_eq, delivers?_whole]
  cases e.move? with
  | none => simp
  | some move => by_cases hl : move.1 = l <;> simp [hl, Prod.ext_iff]

/-- In the account of a run a library becomes done once if it is in the end, and else never. -/
theorem Builder.count_done_of_account {c : Catalog} {built stopped waiting : List Library}
    {es : List Event} {outcomes : OrderedMap Library Outcome}
    (h : Account c order es outcomes built stopped waiting) (hl : l ∈ order) :
    (entered es l).count .done = if standing es l = .done then 1 else 0 := by
  rw [h.split, List.mem_append, List.mem_append] at hl
  rcases hl with hl | hl | hl
  · rw [standing_of_built h hl, (h.built_done l hl).1]
    decide
  · obtain ⟨⟨way, hway, hentered⟩, -⟩ := h.stopped_failed l hl
    rw [standing_of_stopped h hl, hentered]
    have hnone : LibraryState.done ∉ way := fun hdone => by
      have := hway.subset hdone
      simp at this
    simp [List.count_eq_zero.2 hnone]
  · rw [standing_of_waiting h hl, h.waiting_pending l hl]
    decide

/-! ## A run -/

namespace Builder

variable {σ : Type} {b : Builder σ} {request : Option (List Library)} {bench bench' : Bench σ}
  {result : RunResult}

/-- The report is written to the directory of builds. -/
theorem staysBelow_writeReport (b : Builder σ) (r : RunResult) (journal : List Event) :
    StaysBelow b.settings.buildRoot B j (b.writeReport r journal) := by
  have hbelow : ∀ {name : String}, isName name = true →
      Below b.settings.buildRoot (b.settings.buildRoot / name) := fun {name} hname =>
    ⟨[name], List.cons_ne_nil _ _, (plain_cons.2 ⟨hname, plain_nil⟩).descending,
      Path.div_name hname⟩
  refine (reads_ask _).staysBelow.bind fun f => ?_
  dsimp only
  split
  · exact (staysBelow_writeFile (hbelow (by decide)) _).bind fun _ =>
      staysBelow_writeText (hbelow (by decide)) _
  · exact staysBelow_writeText (hbelow (by decide)) _

/-- A run that returns a result goes on step by step once it has made its directories, and changes
the files of its sysroot by the deliveries of these steps and by nothing else. -/
theorem run_ledger (hr : b.runner.Confined b.settings.buildRoot B j)
    (hin : ∀ l e, b.catalog.find? l = some e → e.Inward)
    (hs : (b.site none).Apart bench.tree R B k j) (h : b.run request bench = (.ok result, bench')) :
    Grounded R B bench.tree bench'.tree ∧ Sited bench.tree b.settings.sysrootDir R k ∧
    ∃ platformFile start finish es ds,
      Work.onTree (b.prepareRoots result.order)
        ((opened result.order bench).note (b.opening result.order)) = (.ok platformFile, start) ∧
      Run.Steps b.runner (b.site platformFile) result.order start ds finish ∧
      Ledger (b.site platformFile) result.order R k bench es ds bench' := by
  obtain ⟨order, platformFile, outcomes, start, finish, ending, -, -, hroots, hloop, hjournal,
    ⟨r, journal, -, hreport⟩, rfl⟩ := run_ok h
  have hs' : (b.site platformFile).Apart bench.tree R B k j := apart_site hs platformFile
  obtain ⟨hprepare, hstart⟩ := Work.onTree_eq hroots
  obtain ⟨hground₁, hsame₁, hsite⟩ := prepareRoots_grounded hs hprepare
  have hopened : Ledger (b.site platformFile) order R k bench [b.opening order] [] start :=
    .of_quiet (by rw [hstart]; rfl) rfl hsame₁
  obtain ⟨ds, hsteps⟩ : Run.Advances b.runner (b.site platformFile) order start finish :=
    (stepwise_buildEach hin order (fun _ hl => hl) .empty).of_apply hloop fun _ he => by cases he
  obtain ⟨hground₂, es, hbuilt⟩ := hsteps.ledger hs' hr hin hground₁
  have hreported : ChangedBelow b.settings.buildRoot B j finish.tree bench'.tree :=
    (staysBelow_writeReport b r journal).of_apply hreport fun _ _ => trivial
  obtain ⟨hground', hsame'⟩ := hground₂.of_changedBelow hs' hreported
  have hclosed : Ledger (b.site platformFile) order R k finish
      [.finished (endState finish outcomes) ending] [] bench' :=
    .of_quiet hjournal rfl (.of_eq hsame')
  have hledger := (hopened.trans hbuilt).trans hclosed
  rw [List.nil_append, List.append_nil] at hledger
  exact ⟨hground', hsite, platformFile, start, finish, _, ds, hroots, hsteps, hledger⟩

/-- The libraries of a run that are done were delivered as a whole, each once, and no others. -/
theorem wholes_of_run {platformFile : Option Path} {es : List Event}
    (h : b.run request bench = (.ok result, bench'))
    (hledger : Ledger (b.site platformFile) result.order R k bench es ds bench') :
    (wholes ds).Nodup ∧
      ∀ l, l ∈ wholes ds ↔ l ∈ result.order ∧ result.states.find? l = some .done := by
  obtain ⟨es', built, stopped, waiting, hjournal, hacc, -, -, hstates, -⟩ := run_account h
  obtain rfl : es' = es := List.append_cancel_left (hjournal.symm.trans hledger.journal)
  have hcount : ∀ l ∈ result.order,
      (wholes ds).count l = if standing es' l = .done then 1 else 0 := fun l hl => by
    rw [count_wholes, hledger.notices, count_delivers, count_done_of_account hacc hl]
  have horder : ∀ l ∈ wholes ds, l ∈ result.order := fun l hl => by
    obtain ⟨d, hd, hwhole, rfl⟩ := mem_wholes.1 hl
    exact hledger.ordered d hd hwhole
  refine ⟨List.nodup_iff_count_le_one.2 fun l => ?_, fun l => ⟨fun hl => ?_, fun ⟨hl, hdone⟩ => ?_⟩⟩
  · by_cases hl : l ∈ result.order
    · rw [hcount l hl]
      split <;> omega
    · rw [List.count_eq_zero.2 fun hmem => hl (horder l hmem)]
      omega
  · have hpos := List.count_pos_iff.2 hl
    rw [hcount l (horder l hl)] at hpos
    split at hpos
    · next hdone => exact ⟨horder l hl, hdone ▸ hstates l (horder l hl)⟩
    · omega
  · rw [hstates l hl] at hdone
    refine List.count_pos_iff.1 ?_
    rw [hcount l hl, if_pos (Option.some.inj hdone)]
    omega

/-- A rehearsed run that returns a result changes the files of its sysroot by completed installations
and by nothing else, whichever invocations fail.  Once its directories are made it goes on step by
step, and its deliveries are the requests that succeed among these steps: carried out one after the
other, they lead from the files that were there at first to those that are there in the end, and the
journal tells of each in order.  The libraries that are done were delivered as a whole, each once,
and no others were.  Headers that are delivered alone leave what is below `lib` as it is, save for
new directories; and the manifest of a library that is not done lists nothing below `lib` in the end
that it did not list at first. -/
theorem run_onlyInstalls {b : Builder Rehearsal.State} {r : Rehearsal}
    {bench bench' : Bench Rehearsal.State} (hrunner : b.runner = r.runner)
    (hincident : ∀ i, StaysBelow b.settings.buildRoot B j (r.incident i))
    (hin : ∀ l e, b.catalog.find? l = some e → e.Inward)
    (hs : (b.site none).Apart bench.tree R B k j) (h : b.run request bench = (.ok result, bench')) :
    ∃ platformFile start finish events deliveries,
      Work.onTree (b.prepareRoots result.order)
        ((opened result.order bench).note (b.opening result.order)) = (.ok platformFile, start) ∧
      Run.Steps b.runner (b.site platformFile) result.order start deliveries finish ∧
      Ledger (b.site platformFile) result.order R k bench events deliveries bench' ∧
      (wholes deliveries).Nodup ∧
      (∀ l, l ∈ wholes deliveries ↔ l ∈ result.order ∧ result.states.find? l = some .done) ∧
      (∀ d ∈ deliveries, d.request.portion = .headers →
        SameFiles (R ++ ["lib"]) d.before d.after) ∧
      ∀ l ∈ result.order, result.states.find? l ≠ some .done →
        ∀ files t, readManifest b.settings.sysrootDir l bench'.tree = (.ok files, t) →
          ∃ before, readManifest b.settings.sysrootDir l bench.tree = (.ok before, bench.tree) ∧
            ∀ f ∈ files, (namesOf f).head? = some "lib" → f ∈ before := by
  have hconfined : b.runner.Confined b.settings.buildRoot B j :=
    hrunner ▸ Rehearsal.confined hincident
  obtain ⟨hground, hsite, platformFile, start, finish, es, ds, hstart, hsteps, hledger⟩ :=
    run_ledger hconfined hin hs h
  obtain ⟨hnodup, hwhole⟩ := wholes_of_run h hledger
  refine ⟨platformFile, start, finish, es, ds, hstart, hsteps, hledger, hnodup, hwhole,
    fun d hd hheaders => (hledger.carried d hd).sameFiles_lib hin hheaders, ?_⟩
  intro l hl hnot files t hread
  have hheaders : ∀ d ∈ ds, d.library = l → d.request.portion = .headers := by
    intro d hd hlibrary
    cases hportion : d.request.portion with
    | headers => rfl
    | whole => exact absurd ((hwhole l).1 (mem_wholes.2 ⟨d, hd, hportion, hlibrary⟩)).2 hnot
  have hgains : GainsNone b.settings.sysrootDir R l bench.tree bench'.tree :=
    Leads.gainsNone (s := b.site platformFile) hledger.leads hledger.carried hin hheaders
  -- both manifests are read off their places
  have hseat : Seat bench'.tree b.settings.sysrootDir R k := hground.seat_sysroot hs
  have hfits : Fits b.settings.sysrootDir (manifestNames l) := by
    by_contra hno
    obtain ⟨e, he⟩ := readManifest_of_not_fits (t := bench'.tree) hseat.null hno
    rw [he] at hread
    cases hread
  rw [readManifest_of_noLinks (sited_of_seat hseat) hground.links_sysroot hseat.null hfits] at hread
  obtain ⟨before, hbefore, hmem⟩ := hgains files (congrArg Prod.fst hread)
  refine ⟨before, ?_, hmem⟩
  rw [readManifest_of_noLinks hsite hs.links_sysroot hseat.null hfits, hbefore]

/-- A rehearsal of the three libraries of headers. -/
def rehearsedChain : Builder Rehearsal.State where
  settings := headerChain.settings
  toolchain := headerChain.toolchain
  catalog := headerChain.catalog
  runner := ({} : Rehearsal).runner

theorem entry_headerChain {e : Catalog.Entry} (h : headerChain.catalog.find? l = some e) :
    e ∈ [headersOf .compat "compat" [], headersOf .libc "libc" [.compat],
      headersOf .zlib "zlib" [.libc]] :=
  show e ∈ headerChain.catalog.pairs.map Prod.snd from
    List.mem_map_of_mem (OrderedMap.mem_pairs_iff.2 h)

theorem apart_firstSources :
    (rehearsedChain.site none).Apart firstSources ["s"] ["build"] linkBudget linkBudget := by
  refine Site.apart_of_plain (L := []) (fun t' _ => seat_root t') rfl rfl (by decide +kernel)
    (by decide) (by decide) (noLinks_of_entries (by decide)) fun l e directory he hdirectory => ?_
  have hmem := entry_headerChain he
  simp only [List.mem_cons, List.not_mem_nil, or_false] at hmem
  rcases hmem with rfl | rfl | rfl
  all_goals
    cases hdirectory
    exact ⟨_, rfl, by decide +kernel, by decide +kernel, by decide +kernel⟩

theorem run_onlyInstalls_rehearsedChain :
    ∃ result bench' platformFile events deliveries,
      rehearsedChain.run (some [.zlib, .libc, .compat]) { tree := firstSources, memory := {} } =
        (.ok result, bench') ∧
      result.states.find? .compat = some .done ∧ result.states.find? .libc = some .failed ∧
      Ledger (rehearsedChain.site platformFile) result.order ["s"] linkBudget
        { tree := firstSources, memory := {} } events deliveries bench' ∧
      ∀ l, l ∈ wholes deliveries ↔ l ∈ result.order ∧ result.states.find? l = some .done := by
  have hresolve : rehearsedChain.resolve (some [.zlib, .libc, .compat]) =
      .ok [.compat, .libc, .zlib] := resolve_headerChain
  have hstates : (match (rehearsedChain.run (some [.zlib, .libc, .compat])
      { tree := firstSources, memory := {} }).1 with
      | .ok r => [r.states.find? .compat, r.states.find? .libc]
      | .error _ => []) = [some .done, some .failed] := by
    unfold run
    rw [hresolve]
    decide +kernel
  rcases hrun : rehearsedChain.run (some [.zlib, .libc, .compat])
      { tree := firstSources, memory := {} } with ⟨fault | result, bench'⟩
  · rw [hrun] at hstates
    cases hstates
  rw [hrun] at hstates
  obtain ⟨hcompat, hlibc⟩ := List.cons.inj hstates
  have hin : ∀ l e, rehearsedChain.catalog.find? l = some e → e.Inward := by
    intro l e he
    have hmem := entry_headerChain he
    simp only [List.mem_cons, List.not_mem_nil, or_false] at hmem
    rcases hmem with rfl | rfl | rfl
    all_goals exact ⟨nofun, nofun, by decide +kernel⟩
  obtain ⟨platformFile, -, -, events, deliveries, -, -, hledger, -, hwholes, -⟩ :=
    run_onlyInstalls rfl (fun _ => (reads_pure _).staysBelow) hin apart_firstSources hrun
  exact ⟨result, bench', platformFile, events, deliveries, rfl, hcompat, (List.cons.inj hlibc).1,
    hledger, hwholes⟩

end Builder

end Sysroot

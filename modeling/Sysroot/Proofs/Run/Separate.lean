import Sysroot.Proofs.Run.Repeating

/-!
# Build directories are separate

Each library is built in a directory of its own.  When tools put their outputs where they are told and
touch nothing else (`Runner.Tidy`), the build of a library leaves the build directories of all others as
they are, and so does everything else that a run does (`Run.Built.sameBuild`, `Builder.Builds.sameBuild`).
In its own build directory, beside the stage, it leaves its outputs and what was there before, if that is
not cleared (`Run.Built.isSome_iff`).
-/

namespace Sysroot

open Effect Sysroot.Tree Sysroot.Tree.Action Sysroot.Install

variable {σ : Type} {t t' t₀ : Tree} {root : Path} {R B : Location} {k j : Nat} {W : List String → Prop}
  {s : Site} {l d : Library} {e : Catalog.Entry} {i : Invocation} {is : List Invocation}

/-! ## Gains -/

/-- Whether all that differs between two trees is on the way to some places below a directory, and is
there in the second one. -/
def Tree.Gained (B : Location) (W : List String → Prop) (t t' : Tree) : Prop :=
  ∀ m, t'.get? m = t.get? m ∨ (t'.get? m).isSome ∧ ∃ names, W names ∧ B <+: m ∧ m <+: B ++ names

namespace Tree.Gained

theorem refl (B : Location) (W : List String → Prop) (t : Tree) : Gained B W t t := fun _ => .inl rfl

theorem trans {t'' : Tree} (h : Gained B W t t') (h' : Gained B W t' t'') : Gained B W t t'' := by
  intro m
  rcases h' m with hsame | hnew
  · rw [hsame]
    exact h m
  · exact .inr hnew

theorem mono {W' : List String → Prop} (h : Gained B W t t') (hW : ∀ names, W names → W' names) :
    Gained B W' t t' := fun m =>
  (h m).imp_right fun ⟨hsome, names, hnames, hway⟩ => ⟨hsome, names, hW names hnames, hway⟩

/-- What was there still is. -/
theorem isSome (h : Gained B W t t') {m : Location} (hm : (t.get? m).isSome) : (t'.get? m).isSome := by
  rcases h m with hsame | ⟨hsome, -⟩
  · rwa [hsame]
  · exact hsome

theorem get?_eq (h : Gained B W t t') {names : List String} (hno : ∀ y, W y → ¬ names <+: y) :
    t'.get? (B ++ names) = t.get? (B ++ names) := by
  refine (h (B ++ names)).resolve_right ?_
  rintro ⟨-, y, hy, -, hpre⟩
  exact hno y hy ((List.prefix_append_right_inj B).1 hpre)

/-- Work that leaves something at each place that it changes gains these places. -/
theorem of_worked {D O : List String → Prop} (h : Worked root B j D O t t') (hseat : Seat t root B j)
    (hlinks : NoLinks t B) (hD : ∀ y, D y → ∃ names, W names ∧ y <+: names)
    (hO : ∀ y, O y → W y ∧ (t'.get? (B ++ y)).isSome) : Gained B W t t' := by
  intro m
  rcases (h hseat hlinks).2 m with hsame | ⟨hdir, y, hy, hpre, hway⟩ | ⟨y, hy, rfl⟩
  · exact .inl hsame
  · obtain ⟨names, hnames, hpre'⟩ := hD y hy
    exact .inr ⟨hdir ▸ rfl, names, hnames, hpre,
      hway.trans ((List.prefix_append_right_inj B).2 hpre')⟩
  · obtain ⟨hy, hsome⟩ := hO y hy
    exact .inr ⟨hsome, y, hy, List.prefix_append _ _, List.prefix_rfl⟩

end Tree.Gained

/-! ## Runners -/

/-- Whether the tools put their outputs where they are told and touch nothing else: an invocation that
goes well leaves something at each of its outputs, and changes nothing but them and the way to them. -/
structure Runner.Tidy (r : Runner σ) (root : Path) (B : Location) (j : Nat) : Prop where
  confined : r.Confined root B j
  gains : ∀ i t memory c, i.Inside root → Seat t root B j → NoLinks t B →
    (r.run i t memory).result = .ok c →
      Gained B (fun names => root.within names ∈ i.outputs) t (r.run i t memory).tree ∧
        ∀ names, root.within names ∈ i.outputs → ((r.run i t memory).tree.get? (B ++ names)).isSome

theorem Work.tree_run (r : Runner σ) (i : Invocation) (b : Bench σ) :
    (Work.run r i b).2.tree = (r.run i b.tree b.memory).tree := by
  rw [Work.run]
  dsimp only
  split <;> rfl

theorem Invocation.Inside.output {p : Path} (h : i.Inside root) (hp : p ∈ i.outputs) :
    ∃ front name, front ≠ [] ∧ Descending (front ++ [name]) ∧ p = root.within (front ++ [name]) := by
  obtain ⟨⟨names, hne, hnames, rfl⟩, front', hfront, -, hparent⟩ := h.outputs p hp
  obtain ⟨front, name, rfl⟩ : ∃ front name, names = front ++ [name] :=
    ⟨names.dropLast, names.getLast hne, (List.dropLast_concat_getLast hne).symm⟩
  rw [Path.parent_within] at hparent
  obtain rfl := within_injective hparent
  exact ⟨front, name, hfront, hnames, rfl⟩

/-- A rehearsal during which nothing else happens is tidy. -/
theorem Rehearsal.Undisturbed.tidy {r : Rehearsal} (hr : r.Undisturbed) : r.runner.Tidy root B j where
  confined := hr.confined
  gains i t memory c hi hseat hlinks hok := by
    obtain ⟨hwrites, hthere⟩ := hr.writes (b := { tree := t, memory := memory }) (Prod.ext hok rfl)
    rw [Work.tree_run] at hwrites hthere
    have houtputs : ∀ p ∈ i.outputs, ∃ front name, front ≠ [] ∧ Descending (front ++ [name]) ∧
        p = root.within (front ++ [name]) ∧
        (∃ names, root.within names ∈ i.outputs ∧ front <+: names) ∧
        root.within (front ++ [name]) ∈ i.outputs := by
      intro p hp
      obtain ⟨front, name, hfront, hnames, rfl⟩ := hi.output hp
      exact ⟨front, name, hfront, hnames, rfl, ⟨_, hp, List.prefix_append _ _⟩, hp⟩
    obtain ⟨hs, hlinks'⟩ :=
      (staysBelow_writeOutputs i hi.outputs).of_apply hwrites (fun _ _ => trivial) hseat hlinks
    have hsome : ∀ names, root.within names ∈ i.outputs →
        ((r.runner.run i t memory).tree.get? (B ++ names)).isSome := by
      intro names hnames
      obtain ⟨front, name, -, hdown, heq, -⟩ := houtputs _ hnames
      obtain rfl := within_injective heq
      have hquery := Invocation.missingOutputs_eq_nil_iff.1 hthere _ hnames
      have hholds := (query_ok hquery).resolve_right nofun
      obtain ⟨n, hn⟩ := Option.isSome_iff_exists.1 hholds
      rw [(((hseat.of_sameAround hs).node?_eq_some hlinks' (concat_ne_nil front name) hdown).1 hn).2]
      rfl
    exact ⟨.of_worked ((works_writeOutputs houtputs).of_apply hwrites) hseat hlinks (fun _ hy => hy)
      fun y hy => ⟨hy, hsome y hy⟩, hsome⟩

/-! ## Invocations -/

namespace Run

variable {r : Runner σ} {b b' : Bench σ} {onBehalfOf : Library} {places : List String → Prop}

/-- The directories that are made for an invocation are the build directory and those of its outputs. -/
theorem gained_prepareDirs (l : Library) (hi : i.At s d places)
    (hseat : Seat t s.settings.buildRoot B j) (hlinks : NoLinks t B)
    (hok : prepareDirs l i t = (.ok (), t')) :
    Gained B (fun y => y = [d.name ++ "-build"] ∨ s.settings.buildRoot.within y ∈ i.outputs) t t' := by
  have hworks : Works s.settings.buildRoot B j (fun y => y = [d.name ++ "-build"] ∨
      ∃ y', s.settings.buildRoot.within y' ∈ i.outputs ∧ y <+: y') (fun _ => False)
      (prepareDirs l i) := by
    refine Keeps.forM fun dir hdir => works_onRefusal ?_ _
    rcases mem_dirs hdir with rfl | ⟨p, hp, rfl⟩
    · rw [hi.cwd, s.scratchDir_eq]
      exact works_ensureDirs (List.cons_ne_nil _ _)
        (Plain.descending (List.forall_mem_singleton.2 (Site.isName_build d))) (.inl rfl)
    · obtain ⟨front, name, hfront, hnames, rfl⟩ := (Site.inside_of_at hi).output hp
      rw [Path.parent_within]
      exact works_ensureDirs hfront (hnames.of_prefix (List.prefix_append _ _))
        (.inr ⟨_, hp, List.prefix_append _ _⟩)
  refine .of_worked (hworks.of_apply hok) hseat hlinks (fun y hy => ?_) fun _ hno => hno.elim
  rcases hy with rfl | ⟨y', hy', hpre⟩
  · exact ⟨_, .inl rfl, List.prefix_rfl⟩
  · exact ⟨y', .inr hy', hpre⟩

variable (hr : r.Tidy s.settings.buildRoot B j)

include hr

/-- An invocation that goes well in a build directory leaves its outputs there and changes nothing but
them and the way to them. -/
theorem invoke_gained {event : Event} (hi : i.At s d places)
    (hseat : Seat b.tree s.settings.buildRoot B j) (hlinks : NoLinks b.tree B)
    (hok : invoke r l onBehalfOf event i b = (.ok (), b')) :
    (SameAround B b.tree b'.tree ∧ NoLinks b'.tree B) ∧
      Gained B (fun y => y = [d.name ++ "-build"] ∨ s.settings.buildRoot.within y ∈ i.outputs) b.tree
        b'.tree ∧
      ∀ y, s.settings.buildRoot.within y ∈ i.outputs → (b'.tree.get? (B ++ y)).isSome := by
  have hinside := Site.inside_of_at hi
  obtain ⟨-, t, c, hprepare, hrun⟩ := invoke_ok hok
  obtain ⟨hs, hlinks₁⟩ :=
    (staysBelow_prepareDirs l hinside).of_apply hprepare (fun _ _ => trivial) hseat hlinks
  have hseat₁ := hseat.of_sameAround hs
  have htree := Work.tree_run r i (Bench.note { b with tree := t } event)
  rw [hrun] at htree
  have hresult : (r.run i t b.memory).result = .ok c := congrArg Prod.fst hrun
  obtain ⟨hgains, hthere⟩ := hr.gains i t b.memory c hinside hseat₁ hlinks₁ hresult
  obtain ⟨hs', hlinks'⟩ := hr.confined i t b.memory hinside hseat₁ hlinks₁
  rw [show b'.tree = (r.run i t b.memory).tree from htree]
  exact ⟨⟨hs.trans hs', hlinks'⟩, (gained_prepareDirs l hi hseat hlinks hprepare).trans
    (hgains.mono fun _ hy => .inr hy), hthere⟩

/-- So do several of them, one after the other. -/
theorem invocations_gained (h : ∀ i ∈ is, i.At s d places) {event : Invocation → Event}
    (hseat : Seat b.tree s.settings.buildRoot B j) (hlinks : NoLinks b.tree B)
    (hok : is.forM (fun i => invoke r l onBehalfOf (event i) i) b = (.ok (), b')) :
    Gained B (fun y => y = [d.name ++ "-build"] ∨ ∃ i ∈ is, s.settings.buildRoot.within y ∈ i.outputs)
        b.tree b'.tree ∧
      ∀ i ∈ is, ∀ y, s.settings.buildRoot.within y ∈ i.outputs → (b'.tree.get? (B ++ y)).isSome := by
  induction is generalizing b with
  | nil =>
    cases hok
    exact ⟨.refl B _ _, nofun⟩
  | cons i is ih =>
    obtain ⟨⟨⟩, b₁, hfirst, hrest⟩ := bind_ok hok
    obtain ⟨⟨hs, hlinks₁⟩, hgains, hthere⟩ :=
      invoke_gained hr (h i List.mem_cons_self) hseat hlinks hfirst
    obtain ⟨hgains', hthere'⟩ := ih (fun i' hi' => h i' (List.mem_cons_of_mem i hi'))
      (hseat.of_sameAround hs) hlinks₁ hrest
    refine ⟨(hgains.mono fun y hy => hy.imp_right ?_).trans (hgains'.mono fun y hy =>
      hy.imp_right ?_), fun i' hi' y hy => ?_⟩
    · exact fun hout => ⟨i, List.mem_cons_self, hout⟩
    · rintro ⟨i', hi', hout⟩
      exact ⟨i', List.mem_cons_of_mem i hi', hout⟩
    · rcases List.mem_cons.1 hi' with rfl | hi'
      · exact hgains'.isSome (hthere y hy)
      · exact hthere' i' hi' y hy

end Run

/-! ## Build directories -/

theorem Library.build_injective (h : l.name ++ "-build" = d.name ++ "-build") : l = d :=
  Library.name_injective ((String.append_left_inj _).1 h)

/-- Whether two trees have the same in the build directory of a library. -/
def Library.SameBuild (d : Library) (B : Location) (t t' : Tree) : Prop :=
  ∀ names, t'.get? (B ++ (d.name ++ "-build") :: names) = t.get? (B ++ (d.name ++ "-build") :: names)

/-- Whether a library is built from a list of sources. -/
def Catalog.Compiles (c : Catalog) (d : Library) : Prop :=
  ∃ e, c.find? d = some e ∧ e.kind = .native ∧ e.recipe = some .sources

/-- The headers of a library that is built from sources need no invocation. -/
theorem Site.headerPlan_of_compiles {plan : HeaderPlan} (hd : s.catalog.Compiles d)
    (h : s.headerPlan t d = .ok plan) : plan.invocations = [] := by
  obtain ⟨e, he, hkind, hrecipe⟩ := hd
  obtain ⟨e', he', h⟩ := except_bind_ok h
  obtain rfl := Option.some.inj (he.symm.trans (Site.entry_ok he'))
  rw [hkind, hrecipe] at h
  split at h
  · rw [readyHeaders_ok h]
  · next heq => cases heq
  · cases h
  · cases h

namespace Library.SameBuild

theorem refl (d : Library) (B : Location) (t : Tree) : d.SameBuild B t t := fun _ => rfl

theorem trans {t'' : Tree} (h : d.SameBuild B t t') (h' : d.SameBuild B t' t'') :
    d.SameBuild B t t'' := fun names => (h' names).trans (h names)

/-- What is gained in the build directory of another library is not gained in this one. -/
theorem of_gained {places : List String → Prop} (hne : l ≠ d) (his : ∀ i ∈ is, i.At s l places)
    (h : Gained B (fun y => y = [l.name ++ "-build"] ∨
      ∃ i ∈ is, s.settings.buildRoot.within y ∈ i.outputs) t t') : d.SameBuild B t t' := by
  refine fun names => h.get?_eq fun y hy hpre => hne (Library.build_injective ?_)
  rcases hy with rfl | ⟨i, hi, hout⟩
  · exact ((List.cons_prefix_cons.1 hpre).1).symm
  · obtain ⟨names', -, -, -, heq⟩ := (his i hi).outputs _ hout
    obtain rfl := within_injective heq
    exact ((List.cons_prefix_cons.1 hpre).1).symm

end Library.SameBuild

namespace Run

variable {r : Runner σ} {b b' bench provided prepared invoked after : Bench σ} {plan : Plan}
  {files : List Path} (hs : s.Apart t₀ R B k j) (hr : r.Tidy s.settings.buildRoot B j)
  (hin : ∀ l e, s.catalog.find? l = some e → e.Inward)
  (hkeys : ∀ l e, s.catalog.find? l = some e → e.library = l)

include hs hin

/-- What is installed is not installed in a build directory. -/
theorem sameBuild_of_request {request : Request} (hrequest : s.Requests l request)
    (hground : Grounded R B t₀ t) (hok : request.run s.root l t = (.ok files, t')) :
    d.SameBuild B t t' := by
  have hseat := hground.seat_sysroot hs
  obtain ⟨-, -, -, -, -, haround, -⟩ := (hrequest.aimed hin hs hground).filled (sited_of_seat hseat)
    hseat.null hground.links_sysroot hok
  exact fun names => (haround hseat).get? _ fun hpre =>
    absurd hpre (not_below_of_apart hs.not_below hs.not_above)

include hr hkeys

/-- The headers of libraries are provided without touching the build directory of one that is built
from sources. -/
theorem sameBuild_of_provideHeaders {dependent : Catalog.Entry} (hd : s.catalog.Compiles d)
    (hground : Grounded R B t₀ b.tree) (hok : provideHeaders r s dependent l b = (.ok (), b')) :
    d.SameBuild B b.tree b'.tree := by
  obtain ⟨e, he, ⟨hsame, -⟩ | ⟨m, plan, invoked, files, -, -, hplan, hinvoke, hinstall⟩⟩ :=
    provideHeaders_ok hok
  · rw [hsame]
    exact .refl d B _
  have hfind := Site.entry_ok he
  obtain ⟨hplaces, hprovides⟩ := Site.headerPlan_contains he (hin l e hfind) hplan
  have hstep : Work.Stepwise r s [l] (plan.invocations.forM fun i =>
      invoke r l dependent.library (.invokedForHeaders l i dependent.library) i) :=
    Keeps.forM fun i hi => stepwise_invoke l _ rfl ⟨l, e, b.tree, he, .inr ⟨plan, hplan, hi⟩⟩
  have hground' := grounded_of_stepwise hs hr.confined hin hstep hinvoke hground
  refine Library.SameBuild.trans ?_
    (sameBuild_of_request hs hin (show s.Requests l (.headers plan.headersDir plan.place) from
      ⟨e, he, hprovides⟩) hground' hinstall)
  by_cases hl : l = d
  · subst hl
    rw [Site.headerPlan_of_compiles hd hplan] at hinvoke
    cases hinvoke
    exact .refl l B _
  · obtain rfl := hkeys l e hfind
    exact .of_gained hl hplaces
      (invocations_gained hr hplaces (hground.seat_builds hs) hground.links_builds hinvoke).1

theorem sameBuild_of_headers {dependent : Catalog.Entry} {ls : List Library}
    (hd : s.catalog.Compiles d) (hground : Grounded R B t₀ b.tree)
    (hok : ls.forM (provideHeaders r s dependent) b = (.ok (), b')) :
    d.SameBuild B b.tree b'.tree := by
  induction ls generalizing b with
  | nil =>
    cases hok
    exact .refl d B _
  | cons l ls ih =>
    obtain ⟨⟨⟩, b₁, hfirst, hrest⟩ := bind_ok hok
    have hstep : Work.Stepwise r s [l] (provideHeaders r s dependent l) :=
      stepwise_provideHeaders hin dependent l
    have hground₁ := grounded_of_stepwise hs hr.confined hin hstep hfirst hground
    exact (sameBuild_of_provideHeaders hs hr hin hkeys hd hground hfirst).trans (ih hground₁ hrest)

namespace Built

variable (h : Built r s l e plan bench provided prepared invoked after files)
  (hground : Grounded R B t₀ bench.tree)

include h hground

/-- The build of a library leaves the build directory of another one, which is built from sources, as
it is. -/
theorem sameBuild (hd : s.catalog.Compiles d) (hne : l ≠ d) :
    d.SameBuild B bench.tree after.tree := by
  have hfind := Site.entry_ok h.entry
  have hcontains := Site.plan_contains h.entry (hin l e hfind) h.plans
  obtain ⟨hprovided, hprepared, hinvoked⟩ := h.grounded hs hr.confined hin hground
  have hplaces := hcontains.places
  obtain rfl := hkeys l e hfind
  have hprepare := (prepareScratch_ok (b := (Work.enter _ .building provided).2) hcontains
    (hprovided.seat_builds hs) hprovided.links_builds h.prepares).2
  refine (sameBuild_of_headers (b := (Work.enter _ .planning bench).2) hs hr hin hkeys hd hground
    h.provides).trans <|
    Library.SameBuild.trans (fun names => ?_) <|
    (Library.SameBuild.of_gained hne hplaces (invocations_gained hr hplaces
      (hprepared.seat_builds hs) hprepared.links_builds h.invokes).1).trans
    (sameBuild_of_request hs hin (h.requests hin) hinvoked h.installs)
  have hno : ∀ {names'}, ¬ B ++ (e.library.name ++ "-build") :: names' <+:
      B ++ (d.name ++ "-build") :: names := fun {names'} hpre => hne <| Library.build_injective
    (List.cons_prefix_cons.1 ((List.prefix_append_right_inj B).1 hpre)).1
  have hother : B ++ (d.name ++ "-build") :: names ≠ B ++ [e.library.name ++ "-build"] := fun heq =>
    hno (heq.symm ▸ List.prefix_rfl : B ++ [e.library.name ++ "-build"] <+: _)
  rw [hprepare, if_neg hother, if_neg (not_or.2 ⟨hno, fun hclear => hno hclear.2⟩)]
  rfl

/-- What is in a build directory, beside the stage, once a library was built from sources in it: what it
puts out and, unless the directory is cleared, what was there before. -/
theorem isSome_iff (hl : s.catalog.Compiles l) {x : List String} (hne : x ≠ [])
    (hstage : ¬ ["stage"] <+: x) :
    (after.tree.get? (B ++ (l.name ++ "-build") :: x)).isSome ↔
      (∃ i ∈ plan.invocations, ∃ y, s.settings.buildRoot.within y ∈ i.outputs ∧
        (l.name ++ "-build") :: x <+: y) ∨
      l ∉ s.settings.clobber ∧ (bench.tree.get? (B ++ (l.name ++ "-build") :: x)).isSome := by
  have hfind := Site.entry_ok h.entry
  have hcontains := Site.plan_contains h.entry (hin l e hfind) h.plans
  obtain ⟨hprovided, hprepared, hinvoked⟩ := h.grounded hs hr.confined hin hground
  have hsame : l.SameBuild B bench.tree provided.tree := sameBuild_of_headers
    (b := (Work.enter l .planning bench).2) hs hr hin hkeys hl hground h.provides
  have hprepare : prepared.tree.get? (B ++ (l.name ++ "-build") :: x) =
      if l ∈ s.settings.clobber then none
      else bench.tree.get? (B ++ (l.name ++ "-build") :: x) := by
    rw [(prepareScratch_ok (b := (Work.enter l .building provided).2) hcontains
      (hprovided.seat_builds hs) hprovided.links_builds h.prepares).2, hkeys l e hfind]
    have hstage' : ¬ [l.name ++ "-build", "stage"] <+: (l.name ++ "-build") :: x := by
      simpa using hstage
    simp only [List.append_cancel_left_eq, List.cons.injEq, true_and, hne, if_false,
      List.prefix_append_right_inj, hstage', false_or, List.cons_prefix_cons, List.nil_prefix, and_true]
    rw [← hsame x]
    rfl
  obtain ⟨hgained, hthere⟩ := invocations_gained hr hcontains.places (hprepared.seat_builds hs)
    hprepared.links_builds h.invokes
  rw [hkeys l e hfind] at hgained
  rw [sameBuild_of_request hs hin (h.requests hin) hinvoked h.installs x]
  constructor
  · intro hsome
    rcases hgained (B ++ (l.name ++ "-build") :: x) with hkept | ⟨-, y, rfl | ⟨i, hi, hout⟩, -, hway⟩
    · rw [hkept, hprepare] at hsome
      split at hsome
      · cases hsome
      · next hclear => exact .inr ⟨hclear, hsome⟩
    · have hlength := ((List.prefix_append_right_inj B).1 hway).length_le
      exact absurd (List.length_eq_zero_iff.1 (by simpa using hlength)) hne
    · exact .inl ⟨i, hi, y, hout, (List.prefix_append_right_inj B).1 hway⟩
  · rintro (⟨i, hi, y, hout, more, rfl⟩ | ⟨hclear, hsome⟩)
    · have hy := hthere i hi _ hout
      rw [← List.append_assoc] at hy
      by_contra hnone
      rw [Bool.not_eq_true, Option.isSome_eq_false_iff, Option.isNone_iff_eq_none] at hnone
      cases more with
      | nil =>
        rw [List.append_nil, hnone] at hy
        cases hy
      | cons name more =>
        rw [get?_append_eq_none (by rw [hnone]; exact nofun) (List.cons_ne_nil _ _)] at hy
        cases hy
    · refine hgained.isSome ?_
      rwa [hprepare, if_neg hclear]

end Built

end Run

/-! ## Runs -/

namespace Builder

variable {b : Builder σ} {request : Option (List Library)} {order pending pending' : List Library}
  {bench mid start after : Bench σ} {platformFile : Option Path} {files : List Path}

/-- What a run does before its loop leaves the build directories as they are. -/
theorem sameBuild_of_prepareRoots (hs : (b.site none).Apart t R B k j)
    (hok : b.prepareRoots order t = (.ok platformFile, t')) : d.SameBuild B t t' := by
  obtain ⟨made, hground, -, -, -, hkept, ⟨-, p, -, hwrite⟩ | ⟨-, -, rfl⟩⟩ := prepareRoots_ok hs hok
  · refine Library.SameBuild.trans (fun names => hkept _ (List.cons_ne_nil _ _)) fun names => ?_
    have hworks : Works b.settings.buildRoot B j (· = ["cmake-modules", "Platform"])
        (· = ["cmake-modules", "Platform", "WebAssembly.cmake"])
        (b.toolchain.writePlatformFile b.platformDir) := by
      rw [Toolchain.writePlatformFile, platformPath_eq, Path.parent_within]
      have hdir : Descending ["cmake-modules", "Platform"] := by decide
      have hfile : Descending ["cmake-modules", "Platform", "WebAssembly.cmake"] := by decide
      exact Keeps.bind (works_ensureDirs (List.cons_ne_nil _ _) hdir rfl) fun _ =>
        Keeps.bind (works_writeText (List.cons_ne_nil _ _) hfile (by rfl) _) fun _ =>
          works_of_ok fun _ _ _ h => by cases h; exact Std.Refl.refl _
    have hno : d.name ++ "-build" ≠ "cmake-modules" := by cases d <;> decide +kernel
    rcases ((hworks.of_apply hwrite) (hground.seat_builds hs) hground.links_builds).2
      (B ++ (d.name ++ "-build") :: names) with hsame | ⟨-, y, rfl, -, hway⟩ | ⟨y, rfl, heq⟩
    · exact hsame
    · exact absurd (List.cons_prefix_cons.1 ((List.prefix_append_right_inj B).1 hway)).1 hno
    · exact absurd (List.cons.inj (List.append_cancel_left heq)).1 hno
  · exact fun names => hkept _ (List.cons_ne_nil _ _)

/-- The ground stays firm while a library is built. -/
theorem grounded_of_build (hs : s.Apart t₀ R B k j)
    (hr : b.runner.Confined s.settings.buildRoot B j)
    (hin : ∀ l e, s.catalog.find? l = some e → e.Inward)
    (hbuild : Run.build b.runner s l bench = (.ok files, after))
    (hground : Grounded R B t₀ bench.tree) : Grounded R B t₀ after.tree := by
  have hstep : Work.Stepwise b.runner s [l] (Run.build b.runner s l) :=
    Run.stepwise_build hin (List.mem_singleton_self l)
  exact Run.grounded_of_stepwise hs hr hin hstep hbuild hground

/-- Libraries that are built leave the build directory of another one as it is. -/
theorem Builds.sameBuild (h : b.Builds s order pending bench pending' after)
    (hs : s.Apart t₀ R B k j) (hr : b.runner.Tidy s.settings.buildRoot B j)
    (hin : ∀ l e, s.catalog.find? l = some e → e.Inward)
    (hkeys : ∀ l e, s.catalog.find? l = some e → e.library = l) (hd : s.catalog.Compiles d)
    (hground : Grounded R B t₀ bench.tree) (hnodup : pending.Nodup)
    (hnot : d ∉ pending ∨ d ∈ pending') : d.SameBuild B bench.tree after.tree := by
  induction h with
  | refl => exact .refl d B _
  | @build pending pending' bench next last l files _ hfind hbuild rest ih =>
    have hl : l ≠ d := by
      rintro rfl
      rcases hnot with hnot | hleft
      · exact hnot (List.mem_of_find?_eq_some hfind)
      · exact hnodup.not_mem_erase (rest.mem _ hleft)
    obtain ⟨e, plan, provided, prepared, invoked, hbuilt⟩ := Run.build_ok hbuild
    exact (hbuilt.sameBuild hs hr hin hkeys hground hd hl).trans
      (ih (grounded_of_build hs hr.confined hin hbuild hground) (hnodup.erase l)
        (hnot.imp_left fun hno hmem => hno (List.mem_of_mem_erase hmem)))

end Builder

end Sysroot

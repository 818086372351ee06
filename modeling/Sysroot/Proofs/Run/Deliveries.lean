import Sysroot.Proofs.Install.Mapping
import Sysroot.Proofs.Run.Grounds
import Sysroot.Proofs.Run.Steps
import Sysroot.Runner.Rehearsal

/-!
# What a run brings into the sysroot

The only things that come into a sysroot during a run are deliveries: the headers of a library that
are provided for another one, and what the build of a library staged.  Each is a request that was
carried out (`Delivery.Carried`), and each is in the journal.  So the files of the sysroot change
by deliveries alone, in the order of the journal (`Ledger`): every other step stays in the directory
of builds (`Idle`), and so do requests that are refused.  Steps keep the ground that a run stands on,
and therefore all of them keep the ledger (`Run.Steps.ledger`).
-/

namespace Sysroot

open Effect Sysroot.Tree Sysroot.Tree.Action Sysroot.Install

/-! ## Deliveries -/

namespace Site.Requests

variable {s : Site} {t₀ t : Tree} {R B : Location} {k j : Nat} {l : Library} {r : Request}
  (hin : ∀ l e, s.catalog.find? l = some e → e.Inward) (h : s.Requests l r)

include hin h

/-- What a site requests goes down from the directories of the sysroot. -/
theorem inward : r.Inward := by
  cases r with
  | stage source =>
    obtain ⟨e, he, -, hsections, hheaders⟩ := h
    refine ⟨fun dir place hmem => ?_, fun stage name hmem => ?_⟩
    · obtain ⟨-, -, -, rfl⟩ := hheaders dir place (Option.mem_toList.1 hmem)
      exact (hin l e (Site.entry_ok he)).place
    · obtain ⟨name', hname, heq⟩ := List.mem_map.1 hmem
      cases heq
      exact (section_of_standard (hsections ▸ hname)).1
  | headers dir place =>
    refine ⟨fun dir' place' hmem => ?_, nofun⟩
    cases List.mem_singleton.1 hmem
    obtain ⟨e, he, ⟨-, -, -, rfl⟩ | ⟨-, rfl⟩⟩ := h
    · exact (hin l e (Site.entry_ok he)).place
    · decide

/-- What a site requests comes from outside of the sysroot. -/
theorem aimed (hs : s.Apart t₀ R B k j) (hground : Grounded R B t₀ t) : r.Aimed t R := by
  have hsources : ∀ {e dir place}, s.entry l = .ok e → s.FromSources e dir place →
      Outside t R dir := by
    rintro e dir place he ⟨directory, hdirectory, rfl, -⟩
    exact hs.headers t hground.beside l e directory (Site.entry_ok he) hdirectory
  refine ⟨h.inward hin, fun dir hdir => ?_⟩
  cases r with
  | stage source =>
    obtain ⟨e, he, hstage, hsections, hheaders⟩ := h
    rcases List.mem_append.1 hdir with hmem | hmem
    · obtain ⟨⟨dir', place⟩, hplan, rfl⟩ :=
        Option.map_eq_some_iff.1 (Option.mem_def.1 (Option.mem_toList.1 hmem))
      exact hsources he (hheaders dir' place hplan)
    · obtain ⟨name, hname, rfl⟩ := List.mem_map.1 hmem
      have hplain : isName name = true := (section_of_standard (hsections ▸ hname)).2
      rw [hstage, s.stageDir_eq, Path.div_name hplain, Path.within_within]
      exact hground.outside_builds hs (List.cons_ne_nil _ _)
        (plain_cons.2 ⟨Site.isName_build _, plain_cons.2 ⟨by decide, plain_cons.2 ⟨hplain, plain_nil⟩⟩⟩)
  | headers dir' place =>
    obtain rfl := List.mem_singleton.1 hdir
    obtain ⟨e, he, hfrom | ⟨rfl, -⟩⟩ := h
    · exact hsources he hfrom
    · rw [s.headerStageDir_eq, Path.div_name (by decide), Path.within_within]
      exact hground.outside_builds hs (List.cons_ne_nil _ _)
        (plain_cons.2 ⟨Site.isName_build _, by decide⟩)

end Site.Requests

/-- Whether a delivery is what came of a request that a site makes for a library. -/
structure Delivery.Carried (s : Site) (R : Location) (k : Nat) (d : Delivery) : Prop where
  requested : s.Requests d.library d.request
  carried : ∃ m, d.request.mapping d.library d.before = (.ok m, d.before) ∧
    d.request.run s.root d.library d.before =
      (.ok ((inOrder m).map fun item => s.root / item.1), d.after) ∧
    Installed d.before d.after s.root R k d.library m

/-- A request that a site makes, carried out on firm ground, leaves that and is a delivery if it
succeeds; if it fails with a cause, the files of the sysroot stay as they are. -/
theorem Site.Requests.run_spec {s : Site} {t₀ t : Tree} {R B : Location} {k j : Nat} {l : Library}
    {r : Request} (h : s.Requests l r) (hin : ∀ l e, s.catalog.find? l = some e → e.Inward)
    (hs : s.Apart t₀ R B k j) (hground : Grounded R B t₀ t) :
    (∀ cause t', r.run s.root l t = (.error (.caused cause), t') →
      Grounded R B t₀ t' ∧ SameFiles R t t') ∧
    ∀ files t', r.run s.root l t = (.ok files, t') →
      Grounded R B t₀ t' ∧ Delivery.Carried s R k ⟨l, r, t, t'⟩ := by
  have hseat := hground.seat_sysroot hs
  rcases (h.aimed hin hs hground).run_spec (l := l) (sited_of_seat hseat) hseat.null
    hground.links_sysroot with ⟨fault, t₁, hfail, hkept⟩ | ⟨m, t₁, hm, hok, hinst, hlinks⟩
  · refine ⟨fun cause t' hrun => ?_, fun files t' hrun => ?_⟩
    · rw [hfail] at hrun
      cases hrun
      have hgrown : t.Grown t₁ := (hkept ⟨cause, rfl⟩).grown
      exact ⟨hground.of_grown hgrown, hgrown.sameFiles⟩
    · rw [hfail] at hrun
      cases hrun
  · refine ⟨fun cause t' hrun => ?_, fun files t' hrun => ?_⟩
    · rw [hok] at hrun
      cases hrun
    · rw [hok] at hrun
      cases hrun
      exact ⟨hground.of_grownAround hs hinst.around hinst.seat.dir hlinks, h, m, hm, hok, hinst⟩

/-- Whether deliveries, one after the other, lead from a tree to another one: between them the
files below a location stay as they are. -/
def Leads (R : Location) : Tree → List Delivery → Tree → Prop
  | t, [], t' => SameFiles R t t'
  | t, d :: ds, t' => SameFiles R t d.before ∧ Leads R d.after ds t'

namespace Leads

variable {R : Location} {t t' t'' : Tree} {ds ds' : List Delivery}

theorem of_sameFiles (h : SameFiles R t t') (h' : Leads R t' ds t'') : Leads R t ds t'' := by
  cases ds with
  | nil => exact SameFiles.trans h h'
  | cons d ds => exact ⟨h.trans h'.1, h'.2⟩

theorem append (h : Leads R t ds t') (h' : Leads R t' ds' t'') : Leads R t (ds ++ ds') t'' := by
  induction ds generalizing t with
  | nil => exact of_sameFiles h h'
  | cons d ds ih => exact ⟨h.1, ih h.2⟩

end Leads

/-! ## Ledgers -/

variable {σ α : Type}

/-- Whether the files of a sysroot changed by deliveries alone between two benches, and the journal
tells of each in its order.  A library is delivered as a whole only if it is one of a run. -/
structure Ledger (s : Site) (order : List Library) (R : Location) (k : Nat) (b : Bench σ)
    (es : List Event) (ds : List Delivery) (b' : Bench σ) : Prop where
  journal : b'.journal = b.journal ++ es
  notices : ds.map Delivery.notice = es.filterMap Event.delivers?
  leads : Leads R b.tree ds b'.tree
  carried : ∀ d ∈ ds, d.Carried s R k
  ordered : ∀ d ∈ ds, d.request.portion = .whole → d.library ∈ order

variable {s : Site} {order : List Library} {t₀ : Tree} {R B : Location} {k j : Nat}

namespace Ledger

variable {b b' b'' : Bench σ} {es es' : List Event} {ds ds' : List Delivery}

/-- Events that deliver nothing, while the files of the sysroot stay as they are. -/
theorem of_quiet (hjournal : b'.journal = b.journal ++ es)
    (hes : es.filterMap Event.delivers? = []) (hfiles : SameFiles R b.tree b'.tree) :
    Ledger s order R k b es [] b' :=
  ⟨hjournal, hes.symm, hfiles, nofun, nofun⟩

/-- A single delivery, of which one event tells. -/
theorem of_delivery {d : Delivery} {e : Event} (hcarried : d.Carried s R k)
    (htree : d.before = b.tree ∧ b'.tree = d.after) (hjournal : b'.journal = b.journal ++ [e])
    (he : e.delivers? = some d.notice) (hordered : d.request.portion = .whole → d.library ∈ order) :
    Ledger s order R k b [e] [d] b' where
  journal := hjournal
  notices := by simp [he]
  leads := ⟨.of_eq fun _ => by rw [htree.1], .of_eq fun _ => by rw [htree.2]⟩
  carried d' hd := List.mem_singleton.1 hd ▸ hcarried
  ordered d' hd := List.mem_singleton.1 hd ▸ hordered

theorem trans (h : Ledger s order R k b es ds b') (h' : Ledger s order R k b' es' ds' b'') :
    Ledger s order R k b (es ++ es') (ds ++ ds') b'' where
  journal := by rw [h'.journal, h.journal, List.append_assoc]
  notices := by rw [List.map_append, List.filterMap_append, h.notices, h'.notices]
  leads := h.leads.append h'.leads
  carried d hd := (List.mem_append.1 hd).elim (h.carried d) (h'.carried d)
  ordered d hd := (List.mem_append.1 hd).elim (h.ordered d) (h'.ordered d)

end Ledger

/-! ## Idle work -/

/-- Whether between two benches the tree changed in the directory of builds at most, and the journal
tells of no delivery. -/
structure Idle (root : Path) (B : Location) (j : Nat) (b b' : Bench σ) : Prop where
  tree : ChangedBelow root B j b.tree b'.tree
  journal : ∃ es, b'.journal = b.journal ++ es ∧ es.filterMap Event.delivers? = []

namespace Idle

variable {root : Path} {b b' : Bench σ}

instance : Std.Refl (Idle (σ := σ) root B j) :=
  ⟨fun b => ⟨Std.Refl.refl b.tree, [], (List.append_nil _).symm, rfl⟩⟩

instance : Trans (Idle (σ := σ) root B j) (Idle root B j) (Idle root B j) where
  trans h h' := by
    obtain ⟨es, hes, hnone⟩ := h.journal
    obtain ⟨es', hes', hnone'⟩ := h'.journal
    refine ⟨Trans.trans h.tree h'.tree, es ++ es', ?_, ?_⟩
    · rw [hes', hes, List.append_assoc]
    · rw [List.filterMap_append, hnone, hnone', List.append_nil]

theorem note {e : Event} (he : e.delivers? = none) (b : Bench σ) : Idle root B j b (b.note e) :=
  ⟨Std.Refl.refl b.tree, [e], rfl, by simp [he]⟩

theorem enter {state : LibraryState} (hstate : state ≠ .done) (l : Library) (b : Bench σ) :
    Idle root B j b (Work.enter l state b).2 :=
  ⟨Std.Refl.refl b.tree, [.transition l (b.stateOf l) state], rfl, by
    cases state with
    | done => exact absurd rfl hstate
    | _ => rfl⟩

theorem of_onTree {x : Tree.Action α} (hx : StaysBelow root B j x) :
    Keeps (fun _ => True) (Idle root B j) (Work.onTree x : Work σ α) := fun b _ =>
  ⟨hx b.tree fun _ _ => trivial, [], (List.append_nil _).symm, rfl⟩

/-- Running an invocation is idle work if the runner keeps to the directory of builds. -/
theorem run {r : Runner σ} {i : Invocation} (hr : ChangedBelow root B j b.tree
    (r.run i b.tree b.memory).tree) : Idle root B j b (Work.run r i b).2 := by
  rw [Work.run]
  dsimp only
  split
  · exact ⟨hr, [.cancelRequested], rfl, rfl⟩
  · exact ⟨hr, [], (List.append_nil _).symm, rfl⟩

/-- On firm ground, idle work leaves the files of the sysroot as they are. -/
theorem ledger (h : Idle s.settings.buildRoot B j b b') (hs : s.Apart t₀ R B k j)
    (hground : Grounded R B t₀ b.tree) :
    Grounded R B t₀ b'.tree ∧ ∃ es, Ledger s order R k b es [] b' := by
  obtain ⟨hground', hsame⟩ := hground.of_changedBelow hs h.tree
  obtain ⟨es, hjournal, hnone⟩ := h.journal
  exact ⟨hground', es, .of_quiet hjournal hnone (.of_eq hsame)⟩

end Idle

/-! ## Runners -/

/-- Whether running an invocation that works below a root changes the tree below it only. -/
def Runner.Confined (r : Runner σ) (root : Path) (B : Location) (j : Nat) : Prop :=
  ∀ i t memory, i.Inside root → ChangedBelow root B j t (r.run i t memory).tree

namespace Rehearsal

variable {r : Rehearsal} {root : Path} {i : Invocation}

theorem staysBelow_writeOutputs (i : Invocation) {outputs : List Path}
    (h : ∀ p ∈ outputs, Below root p ∧ Below root p.parent) :
    StaysBelow root B j (writeOutputs i outputs) := by
  induction outputs with
  | nil => exact (reads_pure _).staysBelow
  | cons output rest ih =>
    obtain ⟨hpath, hparent⟩ := h output List.mem_cons_self
    exact (staysBelow_ensureDirs hparent).bind fun _ => (staysBelow_writeText hpath _).bind fun _ =>
      ih fun p hp => h p (List.mem_cons_of_mem _ hp)

theorem staysBelow_forgetOutputs (r : Rehearsal) {outputs : List Path}
    (h : ∀ p ∈ outputs, Below root p) : StaysBelow root B j (r.forgetOutputs outputs) := by
  induction outputs with
  | nil => exact (reads_pure _).staysBelow
  | cons output rest ih =>
    have hrest := ih fun p hp => h p (List.mem_cons_of_mem _ hp)
    refine (reads_see _).staysBelow.bind fun _ => ?_
    dsimp only
    split
    · exact (staysBelow_unlink (h output List.mem_cons_self)).bind fun _ => hrest
    · exact hrest

/-- A rehearsal leaves its placeholders where the invocations put their outputs, if nothing else
happens outside of there. -/
theorem confined (h : ∀ i, StaysBelow root B j (r.incident i)) : r.runner.Confined root B j := by
  intro i t memory hi
  show ChangedBelow root B j t ((r.execute i t memory).andThen (r.settle i)).tree
  have hexecute : ChangedBelow root B j t (r.execute i t memory).tree := by
    rw [execute]
    split
    · exact Std.Refl.refl t
    · have hincident := h i t fun _ _ => trivial
      dsimp only
      split
      · next fault t' heq =>
        rwa [heq] at hincident
      · next t' heq =>
        rwa [heq] at hincident
  rw [Ran.andThen]
  split
  · exact hexecute
  · next c hc =>
    have hsettle : StaysBelow root B j (r.settle i c) :=
      (staysBelow_writeOutputs i hi.outputs).bind fun _ => reads_get.staysBelow.bind fun _ =>
        (reads_ofExcept _).staysBelow.bind fun _ =>
          (staysBelow_forgetOutputs r fun p hp => (hi.outputs p hp).1).bind fun _ =>
            (reads_pure _).staysBelow
    exact Trans.trans hexecute (hsettle (r.execute i t memory).tree fun _ _ => trivial)

end Rehearsal

/-! ## Steps -/

namespace Run

variable {r : Runner σ} {root : Path} {l : Library} {i : Invocation} {e : Catalog.Entry}
  {b b' : Bench σ}

/-- The directories of an invocation are made where it works. -/
theorem staysBelow_prepareDirs (l : Library) (hi : i.Inside root) :
    StaysBelow root B j (prepareDirs l i) := by
  refine .forM fun dir hdir => staysBelow_onRefusal (staysBelow_ensureDirs ?_) fun e =>
    (reads_fail _).staysBelow
  have hmem := List.mem_eraseDups.1 ((List.mergeSort_perm _ _).mem_iff.1 hdir)
  rcases List.mem_cons.1 hmem with rfl | hmem
  · exact hi.cwd
  · obtain ⟨output, houtput, rfl⟩ := List.mem_map.1 hmem
    exact (hi.outputs output houtput).2

/-- The scratch directory of a plan is prepared in the directory of builds. -/
theorem idle_prepareScratch {plan : Plan} (hplan : s.Contains e plan) (l : Library) :
    Keeps (fun _ => True) (Idle s.settings.buildRoot B j)
      (prepareScratch s l plan : Work σ Unit) := by
  have hscratch : Below s.settings.buildRoot plan.scratchDir :=
    hplan.scratchDir ▸ s.below_scratchDir e.library
  have hstageDir : Below s.settings.buildRoot plan.stageDir := by
    rw [hplan.stageDir, s.stageDir_eq]
    exact (s.below_scratch e.library (List.cons_ne_nil "stage" []) (by decide)).1
  have hblocked : ∀ {α : Type} {x : Tree.Action α}, StaysBelow s.settings.buildRoot B j x →
      Keeps (fun _ => True) (Idle s.settings.buildRoot B j) (Work.onTree (onRefusal x fun e =>
        Tree.Action.fail (.scratchBlocked l plan.scratchDir.text e)) : Work σ α) := fun hx =>
    Idle.of_onTree (staysBelow_onRefusal hx fun _ => (reads_fail _).staysBelow)
  have hstage : Keeps (fun _ => True) (Idle s.settings.buildRoot B j) (do
      Work.onTree (onRefusal (ensureDirs plan.scratchDir)
        fun e => Tree.Action.fail (.scratchBlocked l plan.scratchDir.text e))
      if ← Work.onTree (onRefusal (ask (Tree.query · plan.stageDir Tree.holds))
          fun e => Tree.Action.fail (.scratchBlocked l plan.scratchDir.text e)) then
        Work.onTree (onRefusal (Tree.Action.apply (Tree.removeTree · plan.stageDir))
          fun e => Tree.Action.fail (.scratchBlocked l plan.scratchDir.text e)) :
      Work σ Unit) := by
    refine (hblocked (staysBelow_ensureDirs hscratch)).bind fun _ =>
      (hblocked (reads_ask _).staysBelow).bind fun there => ?_
    split
    · exact hblocked (staysBelow_removeTree hstageDir)
    · exact .of_eq fun _ => rfl
  unfold prepareScratch
  dsimp only
  split
  · refine (hblocked (reads_ask _).staysBelow).bind fun there => ?_
    split
    · have hnote : Keeps (fun _ => True) (Idle s.settings.buildRoot B j)
          (Work.note (.clobbered l plan.scratchDir) : Work σ Unit) := fun b _ => .note rfl b
      exact (hblocked (staysBelow_removeTree hscratch)).bind fun _ => hnote.bind fun _ => hstage
    · exact hstage
  · exact hstage

variable (hs : s.Apart t₀ R B k j) (hr : r.Confined s.settings.buildRoot B j)
  (hin : ∀ l e, s.catalog.find? l = some e → e.Inward)

include hin in
/-- The invocations of plans work in the directory of builds. -/
theorem inside_of_plans (hi : s.Plans i) : i.Inside s.settings.buildRoot := by
  obtain ⟨l, e, t, he, ⟨plan, hplan, hmem⟩ | ⟨plan, hplan, hmem⟩⟩ := hi
  · exact (Site.plan_contains he (hin l e (Site.entry_ok he)) hplan).invocations i hmem
  · exact Site.inside_of_at
      ((Site.headerPlan_contains he (hin l e (Site.entry_ok he)) hplan).1 i hmem)

include hs hr hin

/-- A step leaves the ground firm, and the files of the sysroot as they are save for what it
delivers. -/
theorem Step.ledger {d? : Option Delivery} (h : Step r s order b d? b')
    (hground : Grounded R B t₀ b.tree) :
    Grounded R B t₀ b'.tree ∧ ∃ es, Ledger s order R k b es d?.toList b' := by
  cases h with
  | note he => exact (Idle.note he b).ledger hs hground
  | enter hstate => exact (Idle.enter hstate _ b).ledger hs hground
  | prepareDirs l hi =>
    have hidle := Idle.of_onTree (B := B) (j := j)
      (staysBelow_prepareDirs l (inside_of_plans hin hi)) b fun _ _ => trivial
    exact hidle.ledger hs hground
  | run hi =>
    have hchanged := hr _ b.tree b.memory (inside_of_plans hin hi)
    exact (Idle.run hchanged).ledger hs hground
  | prepareScratch he hplan =>
    have hcontains := Site.plan_contains he (hin _ _ (Site.entry_ok he)) hplan
    exact (idle_prepareScratch hcontains _ b fun _ _ => trivial).ledger hs hground
  | refuse hrequest hrun =>
    obtain ⟨hground', hsame⟩ := (hrequest.run_spec hin hs hground).1 _ _ hrun
    exact ⟨hground', [], .of_quiet (List.append_nil _).symm rfl hsame⟩
  | provide dependent hrequest hrun =>
    obtain ⟨hground', hcarried⟩ := (hrequest.run_spec hin hs hground).2 _ _ hrun
    exact ⟨hground', _, .of_delivery hcarried ⟨rfl, rfl⟩ rfl rfl nofun⟩
  | install hl hrequest hrun =>
    obtain ⟨hground', hcarried⟩ := (hrequest.run_spec hin hs hground).2 _ _ hrun
    exact ⟨hground', _, .of_delivery hcarried ⟨rfl, rfl⟩ rfl rfl fun _ => hl⟩

/-- So do steps one after the other. -/
theorem Steps.ledger {ds : List Delivery} (h : Steps r s order b ds b')
    (hground : Grounded R B t₀ b.tree) :
    Grounded R B t₀ b'.tree ∧ ∃ es, Ledger s order R k b es ds b' := by
  induction h with
  | refl b => exact ⟨hground, [], .of_quiet (List.append_nil _).symm rfl (.of_eq fun _ => rfl)⟩
  | step first rest ih =>
    obtain ⟨hground₁, es, hfirst⟩ := first.ledger hs hr hin hground
    obtain ⟨hground₂, es', hrest⟩ := ih hground₁
    exact ⟨hground₂, es ++ es', hfirst.trans hrest⟩

end Run

end Sysroot

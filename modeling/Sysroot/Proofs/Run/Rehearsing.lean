import Sysroot.Proofs.Run.Turns
import Sysroot.Proofs.Tree.Pointwise

/-!
# What a rehearsed build leaves in the directory of builds

In a rehearsal during which nothing else happens, an invocation that goes well makes its directories
and writes its outputs, and does nothing else to the file tree (`Run.rehearse`).  What it leaves at a
location depends on what was there only (`Run.pointwise_rehearse`).
-/

namespace Sysroot

open Effect Sysroot.Tree Sysroot.Tree.Action Sysroot.Install

variable {s : Site} {l : Library} {e : Catalog.Entry} {plan : Plan} {i : Invocation}
  {root : Path} {B : Location} {j : Nat}

/-! ## Rehearsals -/

/-- Whether nothing happens in a rehearsal but what its invocations put out. -/
structure Rehearsal.Undisturbed (r : Rehearsal) : Prop where
  incident : ∀ i, r.incident i = pure ()
  forgets : r.forgets = []

namespace Rehearsal

variable {r : Rehearsal} {b b' : Bench State}

theorem Undisturbed.confined (h : r.Undisturbed) : r.runner.Confined root B j :=
  Rehearsal.confined fun i => h.incident i ▸ (reads_pure _).staysBelow

theorem forgetOutputs_of_nil (h : r.forgets = []) (outputs : List Path) :
    r.forgetOutputs outputs = pure () := by
  induction outputs with
  | nil => rfl
  | cons output rest ih =>
    funext t
    rw [forgetOutputs, bind_of_ok (see_apply _ t), h, ih]
    rfl

/-- An invocation that goes well has written its outputs, and they are there. -/
theorem Undisturbed.writes (h : r.Undisturbed) {c : Captured}
    (hok : Work.run r.runner i b = (.ok c, b')) :
    writeOutputs i i.outputs b.tree = (.ok (), b'.tree) ∧ i.missingOutputs b'.tree = .ok [] := by
  obtain ⟨hresult, htree⟩ : (r.runner.run i b.tree b.memory).result = .ok c ∧
      b'.tree = (r.runner.run i b.tree b.memory).tree := by
    rw [Work.run] at hok
    obtain ⟨hresult, rfl⟩ := Prod.mk.inj hok
    refine ⟨hresult, ?_⟩
    split <;> rfl
  rw [htree]
  show writeOutputs i i.outputs b.tree =
    (.ok (), ((r.execute i b.tree b.memory).andThen (r.settle i)).tree) ∧
      i.missingOutputs ((r.execute i b.tree b.memory).andThen (r.settle i)).tree = .ok []
  rw [show (r.runner.run i b.tree b.memory).result =
    ((r.execute i b.tree b.memory).andThen (r.settle i)).result from rfl] at hresult
  obtain ⟨c', hexecute, hsame⟩ : ∃ c', (r.execute i b.tree b.memory).result = .ok c' ∧
      (r.execute i b.tree b.memory).tree = b.tree := by
    rw [Ran.andThen] at hresult
    split at hresult
    · next fault hfail =>
      rw [hfail] at hresult
      cases hresult
    · next c' hc' =>
      refine ⟨c', hc', ?_⟩
      rw [execute, h.incident] at hc' ⊢
      split
      · rfl
      · rfl
  rw [Ran.andThen, hexecute, hsame] at hresult ⊢
  dsimp only at hresult ⊢
  rcases hsettle : r.settle i c' b.tree with ⟨result, t'⟩
  rw [hsettle] at hresult
  obtain rfl : result = .ok c := hresult
  obtain ⟨⟨⟩, t, hwrite, hverifying⟩ := bind_ok hsettle
  obtain ⟨t₁, t₂, hget, hverifying⟩ := bind_ok hverifying
  cases hget
  obtain ⟨c'', t₃, hverify, hlast⟩ := bind_ok hverifying
  obtain rfl := (reads_ofExcept _).eq_of_apply hverify
  rw [forgetOutputs_of_nil h.forgets] at hlast
  cases hlast
  refine ⟨hwrite, ?_⟩
  obtain ⟨missing, hmissing, hnone⟩ : ∃ missing, i.missingOutputs t' = .ok missing ∧
      missing = [] := by
    have hverified : i.verify t' c' = .ok c := by
      rcases hv : i.verify t' c' with fault | c₁
      · rw [hv] at hverify
        cases hverify
      · rw [hv] at hverify
        cases hverify
        rfl
    obtain ⟨missing, hmissing, hrest⟩ := except_bind_ok hverified
    refine ⟨missing, mapError_ok hmissing, ?_⟩
    cases missing with
    | nil => rfl
    | cons p missing => cases hrest
  rw [hmissing, hnone]

end Rehearsal

namespace Run

/-- What an invocation does to the file tree when it is rehearsed. -/
def rehearse (l : Library) (i : Invocation) : Tree.Action Unit := do
  prepareDirs l i
  Rehearsal.writeOutputs i i.outputs

theorem invoke_rehearses {r : Rehearsal} (hr : r.Undisturbed) {b b' : Bench Rehearsal.State}
    {onBehalfOf : Library} {event : Event}
    (hok : invoke r.runner l onBehalfOf event i b = (.ok (), b')) :
    b.cancelled = false ∧ rehearse l i b.tree = (.ok (), b'.tree) ∧
      i.missingOutputs b'.tree = .ok [] := by
  obtain ⟨hgoing, t, c, hprepare, hrun⟩ := invoke_ok hok
  obtain ⟨hwrites, hmissing⟩ := hr.writes hrun
  exact ⟨hgoing, (bind_of_ok hprepare).trans hwrites, hmissing⟩

/-- Invocations one after the other are rehearsed one after the other. -/
theorem invocations_rehearse {r : Rehearsal} (hr : r.Undisturbed) {is : List Invocation}
    {onBehalfOf : Library} {event : Invocation → Event} {b b' : Bench Rehearsal.State}
    (hok : is.forM (fun i => invoke r.runner l onBehalfOf (event i) i) b = (.ok (), b')) :
    is.forM (rehearse l) b.tree = (.ok (), b'.tree) := by
  induction is generalizing b with
  | nil =>
    cases hok
    rfl
  | cons i is ih =>
    obtain ⟨⟨⟩, b₁, hfirst, hrest⟩ := bind_ok hok
    exact (bind_of_ok (invoke_rehearses hr hfirst).2.1).trans (ih hrest)

theorem staysBelow_rehearse (l : Library) (hi : i.Inside root) :
    StaysBelow root B j (rehearse l i) :=
  (staysBelow_prepareDirs l hi).bind fun _ => Rehearsal.staysBelow_writeOutputs i hi.outputs

theorem pointwise_writeOutputs {outputs : List Path}
    (h : ∀ p ∈ outputs, Below root p ∧ Below root p.parent) :
    Pointwise root B j (Rehearsal.writeOutputs i outputs) := by
  induction outputs with
  | nil => exact .pure ()
  | cons output rest ih =>
    obtain ⟨hpath, hparent⟩ := h output List.mem_cons_self
    exact (Pointwise.ensureDirs hparent).bind (staysBelow_ensureDirs hparent)
      ((Pointwise.writeText hpath _).bind (staysBelow_writeText hpath _)
        (ih fun p hp => h p (List.mem_cons_of_mem _ hp)))

/-- What an invocation leaves at a location when it is rehearsed depends on what was there only. -/
theorem pointwise_rehearse (l : Library) (hi : i.Inside root) :
    Pointwise root B j (rehearse l i) := by
  refine .bind (.forM fun dir hdir => ?_) (staysBelow_prepareDirs l hi)
    (pointwise_writeOutputs hi.outputs)
  have hbelow : Below root dir := by
    have hmem := List.mem_eraseDups.1 ((List.mergeSort_perm _ _).mem_iff.1 hdir)
    rcases List.mem_cons.1 hmem with rfl | hmem
    · exact hi.cwd
    · obtain ⟨output, houtput, rfl⟩ := List.mem_map.1 hmem
      exact (hi.outputs output houtput).2
  exact ⟨(Pointwise.ensureDirs hbelow).onRefusal _,
    staysBelow_onRefusal (staysBelow_ensureDirs hbelow) fun _ => (reads_fail _).staysBelow⟩

/-- So does what several of them leave one after the other. -/
theorem pointwise_invocations (l : Library) {is : List Invocation} (h : ∀ i ∈ is, i.Inside root) :
    Pointwise root B j (is.forM (rehearse l)) :=
  .forM fun i hi => ⟨pointwise_rehearse l (h i hi), staysBelow_rehearse l (h i hi)⟩

/-- Headers that are provided in a rehearsal are there already, or their invocations are rehearsed
and the headers installed. -/
theorem provideHeaders_rehearses {r : Rehearsal} (hr : r.Undisturbed) {b b' : Bench Rehearsal.State}
    {dependent : Catalog.Entry} (h : provideHeaders r.runner s dependent l b = (.ok (), b')) :
    ∃ e, s.entry l = .ok e ∧
      (b'.tree = b.tree ∧ (∀ m, e.markerHeader = some m → hasHeader b.tree s.root m = .ok true) ∨
      ∃ m plan invoked files, e.markerHeader = some m ∧ hasHeader b.tree s.root m = .ok false ∧
        s.headerPlan b.tree l = .ok plan ∧
        plan.invocations.forM (rehearse l) b.tree = (.ok (), invoked) ∧
        (Request.headers plan.headersDir plan.place).run s.root l invoked = (.ok files, b'.tree)) := by
  obtain ⟨e, he, hthere | ⟨m, plan, invoked, files, hm, hmissing, hplan, hinvoke, hinstall⟩⟩ :=
    provideHeaders_ok h
  · exact ⟨e, he, .inl hthere⟩
  · exact ⟨e, he, .inr ⟨m, plan, invoked.tree, files, hm, hmissing, hplan,
      invocations_rehearse hr hinvoke, hinstall⟩⟩

end Run

end Sysroot

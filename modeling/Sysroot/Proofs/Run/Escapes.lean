import Sysroot.Proofs.Plan.Escapes
import Sysroot.Proofs.Run.FailFast

/-!
# Which failures end a run

A failure with a cause is the outcome of the library that met it, and the run goes on to its
report.  Any other failure ends the run.  Each step of a library fails with a cause or in one of
the few ways that nobody gives a cause to (`Run.failsOnly_attempt`), so a run either returns a
result and leaves its report, or ends in one of those ways, or because its report cannot be written
(`Builder.run_settled`).
-/

namespace Sysroot

open Effect Tree.Action

/-! ## Running invocations -/

/-- The runners of builds: a rehearsal to which nothing happens but what it is asked to do, and the
host. -/
inductive Runner.IsDriver : {σ : Type} → Runner σ → Prop
  | rehearsal (r : Rehearsal) (hincident : ∀ i t, (r.incident i t).1 = .ok ())
      (hforgets : r.forgets = []) : IsDriver r.runner
  | host (h : HostRunner) : IsDriver h.runner

section Runners

variable {root : Path} {i : Invocation}

theorem failsBy_verify (t : Tree) (c : Captured) : FailsBy (Settled root t) (i.verify t c) := by
  refine (Site.failsBy_ofAnswer (FailsBy.filterM fun p _ => ?_)).bind fun missing => ?_
  · exact (Tree.failsBy_query _).map not
  · split
    · exact failsBy_ok _
    · exact failsBy_error (.caused _)

theorem failsOnly_ofExcept {α : Type} {f : Tree → Except Fault α}
    (hf : ∀ t, FailsBy (Settled root t) (f t)) :
    FailsOnly (Settled root) (do Tree.Action.ofExcept (f (← get))) := by
  intro t fault t' h
  rw [bind_of_ok (get_apply t)] at h
  rcases hx : f t with fault₁ | a
  · rw [hx] at h
    cases h
    exact hf t fault hx
  · rw [hx] at h
    cases h

/-- What follows an action that went well fails in a settled way if both do. -/
theorem Ran.settled_andThen {σ : Type} {r : Ran σ} {next : Captured → Tree.Action Captured}
    (hr : ∀ fault, r.result = .error fault → Settled root r.tree fault)
    (hnext : ∀ c, FailsOnly (Settled root) (next c)) {fault : Fault}
    (h : (r.andThen next).result = .error fault) : Settled root (r.andThen next).tree fault := by
  rcases hresult : r.result with fault₁ | c
  · simp only [andThen, hresult] at h ⊢
    exact hr fault (hresult.trans h)
  · rcases hran : next c r.tree with ⟨result, t⟩
    simp only [andThen, hresult, hran] at h ⊢
    rw [h] at hran
    exact (hnext c).of_apply hran

/-- What a rehearsal does before it writes outputs fails with a cause. -/
theorem Rehearsal.settled_execute {r : Rehearsal} (hincident : ∀ i t, (r.incident i t).1 = .ok ())
    (t : Tree) (s : Rehearsal.State) {fault : Fault}
    (h : (r.execute i t s).result = .error fault) : Settled root (r.execute i t s).tree fault := by
  have hcause : ∃ cause, fault = .caused cause := by
    unfold execute at h
    split at h
    · exact ⟨_, (Except.error.inj h).symm⟩
    have hgo := hincident i t
    split at h
    · rename_i heq
      rw [heq] at hgo
      cases hgo
    · dsimp only at h
      split at h
      · exact ⟨_, (Except.error.inj h).symm⟩
      · cases h
  exact .inl hcause

theorem Rehearsal.failsOnly_forgetOutputs {r : Rehearsal} (h : r.forgets = [])
    (outputs : List Path) : FailsOnly (Settled root) (r.forgetOutputs outputs) := by
  induction outputs with
  | nil => exact failsOnly_pure _
  | cons output rest ih =>
    refine (failsOnly_see _).bind fun there => ?_
    rw [h]
    exact ih

theorem Rehearsal.failsOnly_settle {r : Rehearsal} (h : r.forgets = []) (c : Captured) :
    FailsOnly (Settled root) (r.settle i c) := by
  refine FailsOnly.bind (fun t fault t' hwrite => .inr (.output hwrite)) fun _ => ?_
  exact (failsOnly_ofExcept fun t => failsBy_verify t c).bind fun _ =>
    (Rehearsal.failsOnly_forgetOutputs h _).bind fun _ => failsOnly_pure _

/-- What the host does before it looks at outputs fails with a cause, but for a NUL. -/
theorem HostRunner.settled_execute (h : HostRunner) (t : Tree) (s : HostRunner.State)
    {fault : Fault} (hfault : (h.execute i t s).result = .error fault) :
    Settled root (h.execute i t s).tree fault := by
  have hcases : (∃ cause, fault = .caused cause) ∨ fault = .nullCharacter := by
    unfold execute at hfault
    split at hfault
    · exact .inl ⟨_, (Except.error.inj hfault).symm⟩
    dsimp only at hfault
    split at hfault
    · exact .inl ⟨_, (Except.error.inj hfault).symm⟩
    split at hfault
    · exact .inr (Except.error.inj hfault).symm
    · exact .inl ⟨_, (Except.error.inj hfault).symm⟩
    · split at hfault
      · exact .inl ⟨_, (Except.error.inj hfault).symm⟩
      · dsimp only at hfault
        split at hfault
        · cases hfault
        · exact .inl ⟨_, (Except.error.inj hfault).symm⟩
  rcases hcases with hcause | rfl
  · exact .inl hcause
  · exact .inr .null

/-- What a driver runs fails in a settled way. -/
theorem Runner.IsDriver.settled {σ : Type} {r : Runner σ} (h : r.IsDriver) (i : Invocation)
    (t : Tree) (s : σ) {fault : Fault} (hfault : (r.run i t s).result = .error fault) :
    Settled root (r.run i t s).tree fault := by
  cases h with
  | rehearsal r hincident hforgets =>
    exact Ran.settled_andThen (fun _ => r.settled_execute hincident t s)
      (fun c => Rehearsal.failsOnly_settle hforgets c) hfault
  | host h =>
    exact Ran.settled_andThen (fun _ => h.settled_execute t s)
      (fun c => failsOnly_ofExcept fun t => failsBy_verify t c) hfault

end Runners

namespace Run

variable {σ : Type} {root : Path}

/-- Whether work fails in a settled way. -/
abbrev Settles {α : Type} (root : Path) (x : Work σ α) : Prop :=
  FailsOnly (fun bench fault => Settled root bench.tree fault) x

variable {site : Site}

end Run

/-! ## The run -/

namespace Builder

variable {σ : Type} {b : Builder σ} {site : Site} {order pending : List Library}

/-- The bench on which the loop of a run starts. -/
def prepared (b : Builder σ) (order : List Library) (bench : Bench σ) (t : Tree) : Bench σ :=
  { (opened order bench).note (b.opening order) with tree := t }

/-- The result of a run, from what its loop left. -/
def resultOf (order : List Library) (outcomes : OrderedMap Library Outcome) (bench : Bench σ) :
    RunResult where
  order := order
  state := endState bench outcomes
  states := bench.states
  outcomes := outcomes

/-- What a run does once it knows its libraries and made its directories. -/
theorem run_of_prepared {request : Option (List Library)} {bench : Bench σ}
    {platformFile : Option Path} {t : Tree} (hresolve : b.resolve request = .ok order)
    (hvalidate : b.validate order = .ok ())
    (hroots : b.prepareRoots order bench.tree = (.ok platformFile, t)) :
    b.run request bench =
      match b.buildEach (b.site platformFile) order order .empty (b.prepared order bench t) with
      | (.error fault, bench₁) => (.error fault, bench₁)
      | (.ok outcomes, bench₁) =>
          let result := resultOf order outcomes bench₁
          let bench₂ := bench₁.note (.finished result.state (result.failure?.map Prod.fst))
          match b.writeReport result bench₂.journal bench₂.tree with
          | (.error fault, t') => (.error fault, { bench₂ with tree := t' })
          | (.ok (), t') =>
              (.ok { result with reportPath := some b.reportPath }, { bench₂ with tree := t' }) := by
  unfold run
  rw [hresolve, bind_of_ok (show Work.ofExcept _ bench = (.ok order, bench) from rfl), hvalidate,
    bind_of_ok (show Work.ofExcept _ bench = (.ok (), bench) from rfl),
    bind_of_ok (modify_apply _ _)]
  have hprepared : Work.onTree (b.prepareRoots order) ((opened order bench).note (b.opening order)) =
      (.ok platformFile, b.prepared order bench t) := by
    show (let (result, tree) := b.prepareRoots order bench.tree
      (result, { (opened order bench).note (b.opening order) with tree })) = _
    rw [hroots]
    rfl
  rw [bind_of_ok (show Work.note _ _ = (.ok (), _) from rfl)]
  refine (bind_of_ok hprepared).trans ?_
  rcases hloop : b.buildEach (b.site platformFile) order order .empty (b.prepared order bench t) with
    ⟨fault | outcomes, bench₁⟩
  · rw [bind_of_error hloop]
  · rw [bind_of_ok hloop, bind_of_ok (get_apply _)]
    refine (bind_of_ok (show Work.note _ _ = (.ok (), _) from rfl)).trans ?_
    rw [bind_of_ok (get_apply _)]
    dsimp only
    generalize hresult : resultOf order outcomes bench₁ = result
    generalize hbench : bench₁.note (.finished result.state (result.failure?.map Prod.fst)) = bench₂
    have hwritten : ∀ r t', b.writeReport result bench₂.journal bench₂.tree = (r, t') →
        Work.onTree (b.writeReport result bench₂.journal) bench₂ =
          (r, { bench₂ with tree := t' }) := fun r t' h => by
      rw [Work.onTree, h]
    subst hresult hbench
    rcases hreport : b.writeReport (resultOf order outcomes bench₁) _ _ with ⟨fault | _, t'⟩
    · exact bind_of_error (hwritten _ t' hreport)
    · exact bind_of_ok (hwritten _ t' hreport)

/-- A rehearsal of the headers of one library. -/
def oneHeader : Builder Rehearsal.State where
  settings := headerChain.settings
  toolchain := headerChain.toolchain
  catalog := .ofList [(.compat, headersOf .compat "compat" [])]
  runner := ({} : Rehearsal).runner

end Builder

end Sysroot

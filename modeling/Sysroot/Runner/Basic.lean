import Sysroot.Tree.Action

/-!
# Runners

A runner runs invocations, one at a time, on a file tree and a state of its own.  While
one runs, the build may be asked to stop; the runner reports that, because whoever started
the invocation has to stop too.

A runner accepts an invocation only when the outputs that it declares are there at its
end.
-/

namespace Sysroot

/-- What came of running an invocation. -/
structure Ran (σ : Type) where
  result : Except Fault Captured
  tree : Tree
  state : σ
  /-- Whether the build was asked to stop meanwhile. -/
  stopAsked : Bool := false

/-- A way to run invocations. -/
structure Runner (σ : Type) where
  /-- Runs an invocation. -/
  run : Invocation → Tree → σ → Ran σ
  /-- Makes later runs end as cancelled. -/
  cancel : σ → σ

namespace Invocation

/-- The declared outputs that are not there. -/
def missingOutputs (i : Invocation) (t : Tree) : Except SystemError (List Path) :=
  i.outputs.filterM fun p => not <$> t.query p Tree.holds

/-- Refuses what an invocation captured when declared outputs are not there. -/
def verify (i : Invocation) (t : Tree) (c : Captured) : Except Fault Captured := do
  match ← Fault.ofAnswer (i.missingOutputs t) with
  | [] => return c
  | missing =>
      .error (.caused (.outputsMissing i c.exitCode c.stderrTail (missing.map Path.text)))

end Invocation

/-- What came of an action that belongs to running an invocation: its failure ends the run,
otherwise the run goes on. -/
def Ran.andThen {σ : Type} (r : Ran σ) (next : Captured → Tree.Action Captured) : Ran σ :=
  match r.result with
  | .error _ => r
  | .ok c =>
      let (result, tree) := next c r.tree
      { r with result, tree }

end Sysroot

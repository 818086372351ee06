import Sysroot.Journal.Event
import Sysroot.Runner.Basic

/-!
# What a run works on

A bench holds what the steps of a run read and change: the file tree, what the runner
remembers, the journal, and where each library stands.  Work on a bench that fails keeps
what it did, as actions on a file tree do; the journal tells how far it came.

Three things change a bench besides actions on its tree: an event is noted, a library
changes its state, and an invocation is run.  Each has its own function here, and all of a
run is made of them.
-/

namespace Sysroot

/-- What a run works on. -/
structure Bench (σ : Type) where
  tree : Tree
  /-- What the runner remembers. -/
  memory : σ
  /-- Whether somebody asked the build to stop. -/
  cancelled : Bool := false
  /-- What happened so far, in order. -/
  journal : List Event := []
  /-- Where the libraries of the current run stand. -/
  states : OrderedMap Library LibraryState := .empty

/-- Work on a bench, which may fail. -/
abbrev Work (σ α : Type) := ExceptT Fault (StateM (Bench σ)) α

variable {σ : Type}

namespace Bench

/-- The bench after an event. -/
def note (b : Bench σ) (e : Event) : Bench σ := { b with journal := b.journal ++ [e] }

/-- The bench after the build was asked to stop: nothing more is started, and the runner
refuses to run. -/
def cancel (b : Bench σ) (r : Runner σ) : Bench σ :=
  { b.note .cancelRequested with cancelled := true, memory := r.cancel b.memory }

/-- Where a library stands. -/
def stateOf (b : Bench σ) (l : Library) : LibraryState := (b.states.find? l).getD .pending

end Bench

namespace Work

/-- Notes an event. -/
def note (e : Event) : Work σ Unit := modify fun b => b.note e

/-- Fails with a cause. -/
def fail {α : Type} (cause : Cause) : Work σ α := throw (.caused cause)

/-- A computation that may fail. -/
def ofExcept {α : Type} : Except Fault α → Work σ α
  | .ok a => return a
  | .error fault => throw fault

/-- An action on the bench's file tree. -/
def onTree {α : Type} (x : Tree.Action α) : Work σ α := fun b =>
  let (result, tree) := x b.tree
  (result, { b with tree })

/-- A question to the bench's file tree that may fail. -/
def ask {α : Type} (f : Tree → Except Fault α) : Work σ α := do
  ofExcept (f (← get).tree)

/-- Moves a library to another state. -/
def enter (l : Library) (s : LibraryState) : Work σ Unit := do
  let before := (← get).stateOf l
  modify fun b => { b with states := b.states.insert l s }
  note (.transition l before s)

/-- Fails on behalf of a library when the build was asked to stop. -/
def unlessCancelled (l : Library) : Work σ Unit := do
  if (← get).cancelled then fail (.buildCancelled l)

/-- Runs an invocation. -/
def run (r : Runner σ) (i : Invocation) : Work σ Captured := fun b =>
  let ran := r.run i b.tree b.memory
  let b := { b with tree := ran.tree, memory := ran.state }
  (ran.result, if ran.stopAsked then b.cancel r else b)

end Work

end Sysroot

import Sysroot.Install.Transaction
import Sysroot.Plan.Choice
import Sysroot.Run.Bench

/-!
# The build of one library

A library passes through four states.  In `planning` the headers it needs of others are
provided and its plan is made; in `building` the invocations of the plan run; in
`installing` the staged files go into the sysroot; `done` is the end.  An error with a
cause leads from any of them to `failed` and is the library's outcome.  Any other failure
ends the run.
-/

namespace Sysroot.Run

variable {σ : Type}

/-- Makes the directories in which an invocation works and leaves its outputs. -/
def prepareDirs (l : Library) (i : Invocation) : Tree.Action Unit :=
  let dirs := Path.sort (i.cwd :: i.outputs.map Path.parent).eraseDups
  dirs.forM fun dir =>
    Tree.Action.onRefusal (Tree.Action.ensureDirs dir) fun e =>
      Tree.Action.fail (.directoryBlocked l i dir.text e)

/-- Runs an invocation for a library on behalf of another, which may be the same; `event`
is noted once the directories are there. -/
def invoke (r : Runner σ) (l onBehalfOf : Library) (event : Event) (i : Invocation) :
    Work σ Unit := do
  Work.unlessCancelled onBehalfOf
  Work.onTree (prepareDirs l i)
  Work.note event
  let _ ← Work.run r i

/-! ## Headers of other libraries -/

/-- Provides the headers of a library for another one, unless they are there. -/
def provideHeaders (r : Runner σ) (site : Site) (dependent : Catalog.Entry) (l : Library) :
    Work σ Unit := do
  let e ← Work.ofExcept (site.entry l)
  match e.markerHeader with
  | none => return
  | some marker =>
      if ← Work.ask fun t => Fault.ofAnswer (Install.hasHeader t site.root marker) then return
      let plan ← Work.ask (site.headerPlan · l)
      plan.invocations.forM fun i =>
        invoke r l dependent.library (.invokedForHeaders l i dependent.library) i
      let files ← Work.onTree (Install.installHeaders site.root l plan.headersDir plan.place)
      Work.note (.headersProvided l files.length dependent.library)

/-! ## The build -/

/-- Gives a library an empty stage in its build directory, which is removed first if the
settings ask for it. -/
def prepareScratch (site : Site) (l : Library) (plan : Plan) : Work σ Unit := do
  let blocked := fun {α : Type} (x : Tree.Action α) =>
    Tree.Action.onRefusal x fun e =>
      Tree.Action.fail (.scratchBlocked l plan.scratchDir.text e)
  let isThere := fun p => Work.onTree (blocked (Tree.Action.ask (Tree.query · p Tree.holds)))
  let dir := plan.scratchDir
  if l ∈ site.settings.clobber then
    if ← isThere dir then
      Work.onTree (blocked (Tree.Action.apply (Tree.removeTree · dir)))
      Work.note (.clobbered l dir)
  Work.onTree (blocked (Tree.Action.ensureDirs dir))
  if ← isThere plan.stageDir then
    Work.onTree (blocked (Tree.Action.apply (Tree.removeTree · plan.stageDir)))

/-- What a plan installs. -/
def source (plan : Plan) : Install.Source where
  stage := plan.stageDir
  expected := plan.staged
  headers := plan.headers.map fun h => (h.headersDir, h.place)

/-- Builds and installs a library, and gives the installed files. -/
def build (r : Runner σ) (site : Site) (l : Library) : Work σ (List Path) := do
  let e ← Work.ofExcept (site.entry l)
  Work.enter l .planning
  e.headerRequires.forM (provideHeaders r site e)
  let plan ← Work.ask (site.plan · l)
  Work.enter l .building
  prepareScratch site l plan
  plan.invocations.forM fun i => invoke r l l (.invoked l i) i
  Work.unlessCancelled l
  Work.enter l .installing
  let files ← Work.onTree (Install.install site.root l (source plan))
  Work.enter l .done
  return files

/-- Builds a library and gives its outcome. -/
def attempt (r : Runner σ) (site : Site) (l : Library) : Work σ Outcome :=
  tryCatch (Outcome.succeeded <$> build r site l) fun
    | .caused cause => do
        Work.enter l .failed
        Work.note (.failed l cause)
        return .failed cause
    | fault => throw fault

end Sysroot.Run

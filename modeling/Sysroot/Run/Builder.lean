import Sysroot.Catalog.Order
import Sysroot.Fingerprint.Export
import Sysroot.Fingerprint.OfTree
import Sysroot.Run.Library
import Sysroot.Runner.Host
import Sysroot.Toolchain.PlatformFile

/-!
# Runs

A builder has everything that a run needs.  A run decides what to build and checks that
nothing it needs is missing before it touches the file tree; then it builds one library
after another, each as soon as its prerequisites in the run are done.  The first failure
ends the run, and so does a request to stop; libraries that were not started stay
pending.  At the end it writes a report.
-/

namespace Sysroot

/-- Everything that a run needs. -/
structure Builder (σ : Type) where
  settings : Settings
  toolchain : Toolchain
  catalog : Catalog := Catalog.standard
  runner : Runner σ

namespace Builder

/-- A builder that runs the tools on a host and keeps as much of their output as the settings
say. -/
def onHost (host : Host) (settings : Settings) (toolchain : Toolchain) (catalog : Catalog) :
    Builder HostRunner.State where
  settings := settings
  toolchain := toolchain
  catalog := catalog
  runner := ({ host, toolchain, tailBytes := settings.tailBytes } : HostRunner).runner

variable {σ : Type}

/-! ## Before a run -/

/-- The libraries of a run in build order; without a request, those of the settings. -/
def resolve (b : Builder σ) (request : Option (List Library)) : Except Cause (List Library) := do
  b.catalog.check
  match request.getD b.settings.libraries with
  | [] => throw .nothingRequested
  | request =>
      if b.settings.includePrerequisites then b.catalog.order (← b.catalog.closure request)
      else b.catalog.order request

/-- The tools that a library of a run takes.  Fails when the library needs a source tree that
the settings do not name. -/
def toolsFor (b : Builder σ) (l : Library) : Except Cause (List ToolKind) := do
  let e ← b.catalog.entry l
  let headerTools ← e.headerRequires.mapM fun d => do return (← b.catalog.entry d).headerTools
  if e.needsLlvmSource && b.settings.llvmSource.isNone then throw (.needsLlvmSource l)
  return e.tools ++ headerTools.flatten

/-- Refuses a run that lacks a tool or a source tree. -/
def validate (b : Builder σ) (order : List Library) : Except Cause Unit := do
  let kinds ← order.mapM b.toolsFor
  b.toolchain.demand kinds.flatten (Text.join ", " (order.map Library.name))

/-! ## A run -/

/-- The directory of generated platform files. -/
def platformDir (b : Builder σ) : Path := b.settings.buildRoot / "cmake-modules"

/-- Whether a library of a run has a generated build tree. -/
def needsPlatformFile (b : Builder σ) (order : List Library) : Bool :=
  order.any fun l => (b.catalog.find? l).any fun e => e.kind = .configured

/-- Makes the sysroot, the build directory and, where a library needs it, the platform file,
whose path it gives. -/
def prepareRoots (b : Builder σ) (order : List Library) : Tree.Action (Option Path) :=
  Tree.Action.onRefusal
    (do
      Install.create b.settings.sysrootDir
      Tree.Action.ensureDirs b.settings.buildRoot
      if b.needsPlatformFile order then
        some <$> b.toolchain.writePlatformFile b.platformDir
      else return none)
    fun e => Tree.Action.fail
      (.rootsBlocked b.settings.sysrootDir.text b.settings.buildRoot.text e)

/-- Where the plans of a run are made. -/
def site (b : Builder σ) (platformFile : Option Path) : Site where
  settings := b.settings
  toolchain := b.toolchain
  root := b.settings.sysrootDir
  catalog := b.catalog
  platformFile := platformFile

/-- Whether the prerequisites of a library are done, as far as they belong to the run. -/
def isReady (b : Builder σ) (order : List Library) (bench : Bench σ) (l : Library) : Bool :=
  (b.catalog.requires l).all fun d => d ∉ order || bench.stateOf d = .done

/-- Builds the pending libraries, the first one that is ready next, until one fails, none is
ready or the build is asked to stop; adds their outcomes to those before. -/
def buildEach (b : Builder σ) (site : Site) (order pending : List Library)
    (outcomes : OrderedMap Library Outcome) : Work σ (OrderedMap Library Outcome) := do
  let bench ← get
  if bench.cancelled then return outcomes
  match _h : pending.find? (b.isReady order bench) with
  | none => return outcomes
  | some l =>
      let outcome ← Run.attempt b.runner site l
      let outcomes := outcomes.insert l outcome
      if outcome.ok then b.buildEach site order (pending.erase l) outcomes
      else return outcomes
termination_by pending.length
decreasing_by exact Catalog.length_erase_lt_of_find? _h

/-- How a run ended. -/
def endState (bench : Bench σ) (outcomes : OrderedMap Library Outcome) : RunState :=
  if bench.cancelled then .cancelled
  else if outcomes.values.all Outcome.ok then .done
  else .aborted

/-! ## The report -/

/-- The fingerprint of the sysroot. -/
def fingerprint (b : Builder σ) (t : Tree) : Except SystemError Fingerprint :=
  Fingerprint.ofTree t b.settings.sysrootDir b.toolchain.target

/-- The report of a run. -/
def report (b : Builder σ) (r : RunResult) (f : Fingerprint) (journal : List Event) : Json :=
  .obj (r.fields ++ [
    ("target", .str b.toolchain.target),
    ("sysroot", .str b.settings.sysrootDir.text),
    ("digests", .obj (f.values.pairs.map fun (path, digest) => (path, .str digest))),
    ("logs", .arr (journal.map fun e => e.record.toJson))])

/-- Where the report goes. -/
def reportPath (b : Builder σ) : Path := b.settings.buildRoot / "report.json"

/-- Where the fingerprint of a finished sysroot goes. -/
def fingerprintPath (b : Builder σ) : Path := b.settings.buildRoot / "sysroot-digests.cbor"

/-- Writes the report of a run, and the fingerprint of the sysroot if the run is done. -/
def writeReport (b : Builder σ) (r : RunResult) (journal : List Event) : Tree.Action Unit := do
  let f ← Tree.Action.ask b.fingerprint
  if r.ok then f.writeCbor b.fingerprintPath
  Tree.Action.writeText b.reportPath ((b.report r f journal).indentedText ++ "\n")

/-- Builds what is requested, or what the settings name. -/
def run (b : Builder σ) (request : Option (List Library)) : Work σ RunResult := do
  let order ← Work.ofExcept ((b.resolve request).mapError .caused)
  Work.ofExcept ((b.validate order).mapError .caused)
  modify fun bench => { bench with states := .ofList (order.map fun l => (l, .pending)) }
  Work.note (.started order b.toolchain.target b.settings.workers)
  let platformFile ← Work.onTree (b.prepareRoots order)
  let outcomes ← b.buildEach (b.site platformFile) order order .empty
  let bench ← get
  let result : RunResult := {
    order := order
    state := endState bench outcomes
    states := bench.states
    outcomes := outcomes }
  Work.note (.finished result.state (result.failure?.map Prod.fst))
  let journal := (← get).journal
  Work.onTree (b.writeReport result journal)
  return { result with reportPath := some b.reportPath }

/-- Asks the build to stop. -/
def cancel (b : Builder σ) (bench : Bench σ) : Bench σ := bench.cancel b.runner

end Builder

end Sysroot

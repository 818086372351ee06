import Sysroot.Journal.Record
import Sysroot.Run.Result

/-!
# What happens in a run

Every step of a run that is worth a record is an event.  The journal of a run is the list
of its events; `Event.record` is how each of them reads.
-/

namespace Sysroot

/-- A step of a run. -/
inductive Event where
  | started (order : List Library) (target : String) (workers : Int)
  | transition (library : Library) (before after : LibraryState)
  /-- The old build directory of a library was removed. -/
  | clobbered (library : Library) (path : Path)
  | invoked (library : Library) (invocation : Invocation)
  /-- An invocation for the headers of a library that another one needs. -/
  | invokedForHeaders (library : Library) (invocation : Invocation) (dependent : Library)
  | headersProvided (library : Library) (files : Nat) (dependent : Library)
  | failed (library : Library) (cause : Cause)
  | cancelRequested
  | finished (state : RunState) (failure : Option Library)

/-- How an event reads. -/
def Event.record : Event → Record
  | started order target workers =>
      { operation := "run_start"
        state := some RunState.running.name
        message := "Starting sysroot build."
        extra := some (.obj [("order", .ofTexts (order.map Library.name)),
          ("target", .str target), ("workers", .int workers)]) }
  | transition l before after =>
      { operation := "transition"
        library := some l.name
        state := some after.name
        message := before.name ++ " -> " ++ after.name }
  | clobbered l path =>
      { operation := "clobber"
        library := some l.name
        state := some LibraryState.building.name
        message := "Removed previous build directory."
        extra := some (.obj [("path", .str path.text)]) }
  | invoked l i =>
      { operation := "invoke"
        library := some l.name
        state := some LibraryState.building.name
        tool := some i.tool.name
        message := i.describe
        level := "debug"
        extra := some (.obj [("args", .ofTexts i.args), ("cwd", .str i.cwd.text)]) }
  | invokedForHeaders l i dependent =>
      { operation := "invoke"
        library := some l.name
        state := some LibraryState.planning.name
        tool := some i.tool.name
        message := i.describe
        level := "debug"
        extra := some (.obj [("args", .ofTexts i.args), ("for", .str dependent.name)]) }
  | headersProvided l files dependent =>
      { operation := "provision_headers"
        library := some l.name
        state := some LibraryState.planning.name
        message := "Provisioned headers needed by " ++ dependent.name ++ "."
        extra := some (.obj [("files", .int files)]) }
  | failed l cause =>
      let d := cause.diagnostic
      let failure := cause.toolFailure?
      { operation := "build_failed"
        library := some l.name
        state := some LibraryState.failed.name
        tool := failure.bind (·.tool)
        message := d.message
        level := "error"
        extra := some (.obj (("code", .str d.code.text) ::
          match failure with
          | some f => [
              ("exit_code", match f.exitCode with | some n => .int n | none => .null),
              ("stderr_tail", .str f.stderrTail), ("cancelled", .bool f.cancelled)]
          | none => [])) }
  | cancelRequested =>
      { operation := "cancel"
        state := some RunState.cancelled.name
        message := "Cancellation requested."
        level := "warning" }
  | finished state failure =>
      { operation := "run_complete"
        library := failure.map Library.name
        state := some state.name
        message := if state = .done then "Sysroot build finished." else "Sysroot build stopped." }

end Sysroot

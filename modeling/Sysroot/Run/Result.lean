import Sysroot.Error.Cause
import Sysroot.Json.Basic

/-!
# Results of a run

A run takes each library of its order through a life cycle that ends in one of two
states, and records an outcome for every library that reached one.
-/

namespace Sysroot

/-- Where a library stands in a run. -/
inductive LibraryState where
  | pending
  | planning
  | building
  | installing
  | done
  | failed
deriving DecidableEq, Repr, Inhabited

namespace LibraryState

/-- Every state. -/
def all : List LibraryState := [pending, planning, building, installing, done, failed]

/-- The name of a state in reports. -/
def name : LibraryState → String
  | pending => "pending"
  | planning => "planning"
  | building => "building"
  | installing => "installing"
  | done => "done"
  | failed => "failed"

/-- The state of a name. -/
def ofName? (s : String) : Option LibraryState := all.find? fun x => x.name = s

end LibraryState

/-- Where a run stands. -/
inductive RunState where
  | running
  | done
  | aborted
  | cancelled
deriving DecidableEq, Repr, Inhabited

namespace RunState

/-- Every state. -/
def all : List RunState := [running, done, aborted, cancelled]

/-- The name of a state in reports. -/
def name : RunState → String
  | running => "running"
  | done => "done"
  | aborted => "aborted"
  | cancelled => "cancelled"

/-- The state of a name. -/
def ofName? (s : String) : Option RunState := all.find? fun x => x.name = s

end RunState

/-- What became of a library. -/
inductive Outcome where
  | succeeded (artifacts : List Path)
  | failed (cause : Cause)

/-- Whether the library was built. -/
def Outcome.ok : Outcome → Bool
  | succeeded _ => true
  | failed _ => false

/-- An outcome in reports. -/
def Outcome.toJson : Outcome → Json
  | succeeded artifacts =>
      .obj [("status", .str "succeeded"), ("artifacts", .ofTexts (artifacts.map Path.text))]
  | failed cause => .obj [("status", .str "failed"), ("error", cause.diagnostic.toJson)]

/-- What a run did. -/
structure RunResult where
  /-- The libraries of the run in build order. -/
  order : List Library
  state : RunState := .running
  states : OrderedMap Library LibraryState := .empty
  outcomes : OrderedMap Library Outcome := .empty
  reportPath : Option Path := none

namespace RunResult

/-- Whether every library of the run was built. -/
def ok (r : RunResult) : Bool := r.state = .done

/-- The first library of the order that failed, and why. -/
def failure? (r : RunResult) : Option (Library × Cause) :=
  r.order.findSome? fun l =>
    match r.outcomes.find? l with
    | some (.failed cause) => some (l, cause)
    | _ => none

/-- The installed files of a library. -/
def artifactsOf (r : RunResult) (l : Library) : List Path :=
  match r.outcomes.find? l with
  | some (.succeeded artifacts) => artifacts
  | _ => []

/-- The fields of a result in reports. -/
def fields (r : RunResult) : List (String × Json) := [
  ("state", .str r.state.name),
  ("order", .ofTexts (r.order.map Library.name)),
  ("states", .obj (r.states.pairs.map fun (l, s) => (l.name, .str s.name))),
  ("outcomes", .obj (r.outcomes.pairs.map fun (l, o) => (l.name, o.toJson))),
  ("failed_library", .ofText? (r.failure?.map fun f => f.1.name))]

/-- A result in reports. -/
def toJson (r : RunResult) : Json := .obj r.fields

end RunResult

end Sysroot

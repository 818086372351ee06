import Sysroot.Json.Basic
import Sysroot.OrderedMap
import Sysroot.Text.Lines

/-!
# Diagnostics

A diagnostic is an error as a report shows it: a stable code, a message, an optional hint
and a context of named texts whose order shows in the printed form.  Empty context values
are kept but not printed.
-/

namespace Sysroot

/-- The stable identifiers of errors. -/
inductive Code where
  | configuration
  | dependencyCycle
  | planning
  | invocation
  | install
deriving DecidableEq, Repr

namespace Code

/-- Every code. -/
def all : List Code := [configuration, dependencyCycle, planning, invocation, install]

/-- The text of a code in reports. -/
def text : Code → String
  | configuration => "E_CONFIGURATION"
  | dependencyCycle => "E_DEPENDENCY_CYCLE"
  | planning => "E_PLANNING"
  | invocation => "E_INVOCATION"
  | install => "E_INSTALL"

/-- The code of a text. -/
def ofText? (s : String) : Option Code := all.find? fun c => c.text = s

end Code

/-- What an invocation error knows about the tool. -/
structure ToolFailure where
  tool : Option String := none
  exitCode : Option Int := none
  stderrTail : String := ""
  /-- Whether the tool was stopped on request rather than failing by itself. -/
  cancelled : Bool := false
deriving DecidableEq, Repr, Inhabited

/-- The classes of error. -/
inductive Category where
  /-- An error of no particular class, with any code. -/
  | general (code : Code)
  | configuration
  /-- The names of the libraries on or behind the cycle. -/
  | dependencyCycle (cycle : List String)
  | planning
  | invocation (failure : ToolFailure)
  | install
deriving DecidableEq, Repr

/-- The code of a class. -/
def Category.code : Category → Code
  | general c => c
  | configuration => .configuration
  | dependencyCycle _ => .dependencyCycle
  | planning => .planning
  | invocation _ => .invocation
  | install => .install

/-- An error as reports show it. -/
structure Diagnostic where
  category : Category
  message : String
  hint : Option String := none
  context : OrderedMap String String := .empty

namespace Diagnostic

/-- A diagnostic with its context as a list, where the last value of a key counts. -/
def ofParts (category : Category) (message : String) (hint : Option String)
    (context : List (String × String)) : Diagnostic :=
  ⟨category, message, hint, .ofList context⟩

/-- A cycle of prerequisites.  The cycle leads the context, which may overrule it, and an
absent or empty hint gives way to general advice. -/
def ofCycle (cycle : List String) (hint : Option String) (context : List (String × String)) :
    Diagnostic where
  category := .dependencyCycle cycle
  message := "Library prerequisites contain a cycle."
  hint := some (match hint with
    | none | some "" => "Break the cycle in the library catalog before building."
    | some h => h)
  context := .ofList (("cycle", Text.join " -> " cycle) :: context)

/-- The failure of a tool.  Its name and exit code lead the context, which may overrule
them; the end of its error output closes it and overrules it. -/
def ofToolFailure (message : String) (failure : ToolFailure) (hint : Option String)
    (context : List (String × String)) : Diagnostic where
  category := .invocation failure
  message := message
  hint := hint
  context := .ofList (
    (failure.tool.map fun t => ("tool", t)).toList ++
    (failure.exitCode.map fun n => ("returncode", toString n)).toList ++ context ++
    (if failure.stderrTail = "" then [] else [("stderr", failure.stderrTail)]))

/-- The code of a diagnostic. -/
def code (d : Diagnostic) : Code := d.category.code

/-- The printed form: the message, the hint, and a line for each context value that is not
empty. -/
def text (d : Diagnostic) : String :=
  let hint := match d.hint with
    | none | some "" => []
    | some h => ["Hint: " ++ h]
  let context := d.context.pairs.filterMap fun (k, v) =>
    if v = "" then none else some ("  " ++ k ++ ": " ++ v)
  Text.join "\n" (d.message :: hint ++ context)

/-- A context as a JSON object. -/
def contextJson (d : Diagnostic) : Json :=
  .obj (d.context.pairs.map fun (k, v) => (k, .str v))

/-- The form of a diagnostic in reports. -/
def toJson (d : Diagnostic) : Json :=
  .obj ([("code", .str d.code.text), ("message", .str d.text), ("context", d.contextJson)] ++
    (d.hint.map fun h => ("hint", Json.str h)).toList)

end Diagnostic

end Sysroot

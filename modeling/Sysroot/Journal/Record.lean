import Sysroot.Json.Writer
import Sysroot.Tree.Action

/-!
# Records of a journal

A journal is kept while something runs, and read by people and programs afterwards.  A
record says what was done, to which library, in which state and by which tool, as far as
these apply.  Exported records are one to a line.
-/

namespace Sysroot

/-- One entry of a journal as it is read. -/
structure Record where
  operation : String
  library : Option String := none
  state : Option String := none
  tool : Option String := none
  message : String
  level : String := "info"
  /-- Whatever else there is to say. -/
  extra : Option Json := none

namespace Record

/-- A record as a JSON value. -/
def toJson (r : Record) : Json :=
  .obj ([("level", .str r.level), ("operation", .str r.operation),
    ("library", .ofText? r.library), ("state", .ofText? r.state), ("tool", .ofText? r.tool),
    ("message", .str r.message)] ++ (r.extra.map fun e => ("extra", e)).toList)

/-- The records of a library, or those of no library. -/
def ofLibrary (name : Option String) (l : List Record) : List Record :=
  l.filter fun r => r.library = name

/-- Records as text, one to a line. -/
def linesText (l : List Record) : String :=
  Text.join "\n" (l.map fun r => r.toJson.lineText) ++ "\n"

/-- Exports records to a file. -/
def writeLines (l : List Record) (p : Path) : Tree.Action Unit := do
  Tree.Action.ensureDirs p.parent
  Tree.Action.writeText p (linesText l)

end Record

end Sysroot

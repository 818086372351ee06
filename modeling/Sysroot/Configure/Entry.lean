import Sysroot.Path
import Sysroot.Template.Expand

/-!
# Cache entries of a configure run

A cache entry is a typed text; `render` writes the argument that sets it.  A switch is
never a template, every other entry is one.
-/

namespace Sysroot.Configure

/-- The types of a cache entry. -/
inductive EntryType where
  | switch
  | string
  | path
  | filePath
deriving DecidableEq, Repr, Inhabited

/-- Every type. -/
def EntryType.all : List EntryType := [switch, string, path, filePath]

/-- The name of a type in an argument. -/
def EntryType.name : EntryType → String
  | switch => "BOOL"
  | string => "STRING"
  | path => "PATH"
  | filePath => "FILEPATH"

/-- The type of a name. -/
def EntryType.ofName? (s : String) : Option EntryType := all.find? fun t => t.name = s

/-- A cache entry. -/
structure Entry where
  type : EntryType
  value : String
deriving DecidableEq, Repr, Inhabited

namespace Entry

/-- A switch that is on. -/
def on : Entry := ⟨.switch, "ON"⟩

/-- A switch that is off. -/
def off : Entry := ⟨.switch, "OFF"⟩

/-- The argument that gives a name this entry. -/
def render (e : Entry) (name : String) : String :=
  "-D" ++ name ++ ":" ++ e.type.name ++ "=" ++ e.value

/-- The entry with its value expanded. -/
def expand (e : Entry) (values : OrderedMap String String) : Except Template.Fault Entry :=
  match e.type with
  | .switch => .ok e
  | _ => (Template.expand values e.value).map fun value => { e with value }

end Entry

end Sysroot.Configure

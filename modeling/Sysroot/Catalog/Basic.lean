import Sysroot.Configure.Entry
import Sysroot.Error.Cause

/-!
# Catalogs of libraries

A catalog says of each library it holds where its sources live, how it is built, which
libraries must be built before it and whose headers must at least be there.  The order
of the entries matters: it decides between libraries that could be built next.
-/

namespace Sysroot

/-- Who drives the build of a library. -/
inductive Catalog.Kind where
  /-- The planner itself, or the library's own makefile or script. -/
  | native
  /-- A generated build tree. -/
  | configured
deriving DecidableEq, Repr, Inhabited

/-- The kind's name in descriptions. -/
def Catalog.Kind.name : Catalog.Kind → String
  | native => "native"
  | configured => "configured"

/-- The kind of a name. -/
def Catalog.Kind.ofName? (s : String) : Option Catalog.Kind :=
  [native, configured].find? fun k => k.name = s

/-- How a library of the native kind is built. -/
inductive Catalog.Recipe where
  /-- Each source is compiled and the objects are archived. -/
  | sources
  /-- The library's makefile installs it. -/
  | makefile
  /-- The library's configure script runs, then its makefile. -/
  | configureScript
  /-- Nothing is built: the headers are the library. -/
  | headers
deriving DecidableEq, Repr, Inhabited

/-- The recipe's name in descriptions. -/
def Catalog.Recipe.name : Catalog.Recipe → String
  | sources => "sources"
  | makefile => "makefile"
  | configureScript => "configure-script"
  | headers => "headers"

/-- The recipe of a name. -/
def Catalog.Recipe.ofName? (s : String) : Option Catalog.Recipe :=
  [sources, makefile, configureScript, headers].find? fun r => r.name = s

/-- What a catalog says of a library. -/
structure Catalog.Entry where
  library : Library
  role : String
  kind : Catalog.Kind
  /-- The directory of the sources, below the directory of all sources. -/
  source : String
  /-- The file that the library contributes to `lib`. -/
  archive : Option String := none
  /-- The libraries that must be built before. -/
  requires : List Library := []
  /-- The libraries whose headers must be there. -/
  headerRequires : List Library := []
  /-- A header whose presence shows that the library's headers are installed. -/
  markerHeader : Option String := none
  /-- The directory of ready-made headers, below the sources. -/
  publicHeaders : Option String := none
  /-- Where those headers go below `include`. -/
  headerPrefix : String := ""
  /-- Whether the build does not install those headers itself. -/
  copiesPublicHeaders : Bool := false
  recipe : Option Catalog.Recipe := none
  /-- Patterns of the files to compile. -/
  sources : List String := []
  /-- Names of files that are not compiled although a pattern matches. -/
  exclude : List String := []
  cflags : List String := []
  /-- Libraries whose objects go into this library's archive too. -/
  embedObjects : List Library := []
  makeVars : OrderedMap String String := .empty
  configureArgs : List String := []
  cacheEntries : OrderedMap String Configure.Entry := .empty
  configureFlags : List String := []
  needsLlvmSource : Bool := false

namespace Catalog.Entry

/-- The tools that building the library takes. -/
def tools (e : Entry) : List ToolKind :=
  match e.kind, e.recipe with
  | .configured, _ => [.cmake, .ninja]
  | _, some .makefile | _, some .configureScript => [.make]
  | _, some .headers => []
  | _, _ => [.cc, .ar]

/-- The tools that installing the library's headers alone takes. -/
def headerTools (e : Entry) : List ToolKind :=
  if e.publicHeaders.isNone ∧ e.recipe = some .makefile then [.make] else []

end Catalog.Entry

/-- Entries by library, in the order of their declaration. -/
abbrev Catalog := OrderedMap Library Catalog.Entry

namespace Catalog

/-- The entry of a library. -/
def entry (c : Catalog) (l : Library) : Except Cause Entry :=
  match c.find? l with
  | some e => .ok e
  | none => .error (.notInCatalog l)

/-- The libraries that must be built before a library; none for one that is not in the
catalog. -/
def requires (c : Catalog) (l : Library) : List Library :=
  ((c.find? l).map Entry.requires).getD []

end Catalog

end Sysroot

import Sysroot.Catalog.Standard
import Sysroot.Install.Manifest
import Sysroot.Settings
import Sysroot.Toolchain.Basic

/-!
# Plans

A plan says how one library is built: the invocations in order, where they work, and
which files they stage.  A header plan does as much for the headers alone.

Plans are made at a site: the settings, the toolchain, the sysroot and the catalog of a
build.  They read the file tree and do not change it.
-/

namespace Sysroot

/-- How the headers of a library are provided. -/
structure HeaderPlan where
  library : Library
  invocations : List Invocation
  /-- The directory that holds the headers once the invocations have run. -/
  headersDir : Path
  /-- Where the headers go below `include`. -/
  place : String := ""

/-- How a library is built. -/
structure Plan where
  library : Library
  invocations : List Invocation
  scratchDir : Path
  stageDir : Path
  /-- The files that must be staged once the invocations have run. -/
  staged : List Path := []
  /-- Headers that are installed from the sources together with the staged files. -/
  headers : Option HeaderPlan := none

/-- Where plans are made. -/
structure Site where
  settings : Settings
  toolchain : Toolchain
  /-- The root of the sysroot. -/
  root : Path
  catalog : Catalog := Catalog.standard
  /-- The platform file, once it is written. -/
  platformFile : Option Path := none

namespace Site

/-- The entry of a library. -/
def entry (s : Site) (l : Library) : Except Fault Catalog.Entry :=
  (s.catalog.entry l).mapError .caused

/-- The directory of a library's sources. -/
def sourceDir (s : Site) (e : Catalog.Entry) : Path := s.settings.sourcesDir / e.source

/-- The directory in which a library is built. -/
def scratchDir (s : Site) (l : Library) : Path := s.settings.scratchDir l

/-- The directory into which a build installs. -/
def stageDir (s : Site) (l : Library) : Path := s.scratchDir l / "stage"

/-- The directory into which a build installs headers alone. -/
def headerStageDir (s : Site) (l : Library) : Path := s.scratchDir l / "headers"

/-- The directory of a library's objects. -/
def objectDir (s : Site) (l : Library) : Path := s.scratchDir l / "obj"

/-! ## Flags -/

/-- The flags of every compilation.  Vectorisation is off for every library. -/
def compileFlags (s : Site) : List String :=
  ["--target=" ++ s.toolchain.target, "-fno-vectorize", "-fno-slp-vectorize", "-isystem",
    (Install.includeDir s.root).text]

/-- The flags of every linking. -/
def linkFlags (s : Site) : List String :=
  ("-L" ++ (Install.libDir s.root).text) ::
    if s.settings.emitWast then ["-Wl,--emit-wast"] else []

/-- The texts that the catalog's templates may name. -/
def placeholders (s : Site) (e : Catalog.Entry) : OrderedMap String String := .ofList [
  ("sysroot", s.root.text),
  ("include", (Install.includeDir s.root).text),
  ("lib", (Install.libDir s.root).text),
  ("source", (s.sourceDir e).text),
  ("sources", s.settings.sourcesDir.text),
  ("stage", (s.stageDir e.library).text),
  ("target", s.toolchain.target),
  ("arch", s.toolchain.triple.architecture),
  ("llvm_src", (s.settings.llvmSource.map Path.text).getD ""),
  ("cc", s.toolchain.compiler.text),
  ("ar", s.toolchain.archiver.text),
  ("cflags", Text.join " " s.compileFlags),
  ("ldflags", Text.join " " s.linkFlags)]

/-- A flag of the catalog with its fields replaced. -/
def expand (values : OrderedMap String String) (template : String) : Except Fault String :=
  match Template.expand values template with
  | .ok text => .ok text
  | .error fault =>
      if fault.isReported then
        .error (.caused (.badTemplate template (Install.sortedSet values.keys) fault))
      else .error (.template fault)

/-! ## What must be there -/

/-- Fails with a cause. -/
def fail {α : Type} (cause : Cause) : Except Fault α := .error (.caused cause)

/-- The directory of a library's sources, which must exist. -/
def existingSourceDir (s : Site) (t : Tree) (e : Catalog.Entry) : Except Fault Path := do
  let source := s.sourceDir e
  if ← Fault.ofAnswer (t.query source Tree.isDir) then return source
  else fail (.noSourceTree e.library source.text)

/-- Refuses to plan a library before the headers of its prerequisites are installed, and the
archives of those that must be built. -/
def checkPrerequisites (s : Site) (t : Tree) (e : Catalog.Entry) : Except Fault Unit := do
  for d in e.requires ++ e.headerRequires do
    match (← s.entry d).markerHeader with
    | some header =>
        if !(← Fault.ofAnswer (Install.hasHeader t s.root header)) then
          fail (.headersMissing e.library d (Install.includeDir s.root / header).text)
    | none => pure ()
  for d in e.requires do
    match (← s.entry d).archive with
    | some archive =>
        if !(← Fault.ofAnswer (Install.hasArchive t s.root archive)) then
          fail (.archiveMissing e.library d (Install.libDir s.root / archive).text)
    | none => pure ()

/-! ## Parts of plans -/

/-- Headers that are in the sources ready-made: no tool needs to run. -/
def readyHeaders (s : Site) (t : Tree) (e : Catalog.Entry) (directory : String) :
    Except Fault HeaderPlan := do
  let headersDir := (← s.existingSourceDir t e) / directory
  if ← Fault.ofAnswer (t.query headersDir Tree.isDir) then
    return { library := e.library, invocations := [], headersDir, place := e.headerPrefix }
  else fail (.noHeaderDirectory e.library headersDir.text)

/-- The headers that are installed with a library because its build does not stage them. -/
def copiedHeaders (s : Site) (t : Tree) (e : Catalog.Entry) : Except Fault (Option HeaderPlan) :=
  match e.copiesPublicHeaders, e.publicHeaders with
  | true, some directory => (s.readyHeaders t e directory).map some
  | _, _ => .ok none

/-- The files that a library's own build must stage. -/
def stagedFiles (e : Catalog.Entry) (stage : Path) : List Path :=
  (e.archive.map fun a => stage / "lib" / a).toList ++
    if e.copiesPublicHeaders then []
    else (e.markerHeader.map fun h => stage / "include" / h).toList

end Site

end Sysroot

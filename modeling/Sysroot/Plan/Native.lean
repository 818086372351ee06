import Sysroot.Plan.Basic

/-!
# Libraries with a build of their own

Three recipes run tools: sources are compiled one by one and their objects archived; a
makefile is driven from outside its tree, every choice passed as a variable; a configure
script runs and then the makefile it writes.
-/

namespace Sysroot.Site

/-! ## Sources -/

/-- The files of a directory that match a pattern. -/
def filesMatching (t : Tree) (dir : Path) (text : String) : Except Fault (List Path) :=
  match Pattern.read text with
  | .ok pattern => Fault.ofAnswer do (← t.select dir pattern).filterM (t.query · Tree.isFile)
  | .error fault => .error (.pattern fault)

/-- The source files of a library: those that match a pattern and are not excluded by
name, each once and in order. -/
def sourceFiles (t : Tree) (e : Catalog.Entry) (source : Path) : Except Fault (List Path) := do
  let found ← e.sources.mapM (filesMatching t source)
  let files := Path.sort (found.flatten.eraseDups.filter fun p => p.name ∉ e.exclude)
  if files = [] then fail (.noSourcesMatched e.library source.text e.sources)
  else return files

/-- The object of a source file. -/
def objectFile (s : Site) (e : Catalog.Entry) (file : Path) : Path :=
  s.objectDir e.library / (file.stem ++ ".o")

/-- The compilation of a source file. -/
def compile (s : Site) (e : Catalog.Entry) (source : Path) (flags : List String) (file : Path) :
    Invocation :=
  let object := s.objectFile e file
  { tool := .cc
    args := flags ++ ["-c", file.text, "-o", object.text]
    cwd := s.scratchDir e.library
    outputs := [object]
    label := "compile " ++ ((file.below? source).getD file).text }

/-- Compiles every source file and archives the objects. -/
def sourcesRecipe (s : Site) (t : Tree) (e : Catalog.Entry) : Except Fault (List Invocation) := do
  let source ← s.existingSourceDir t e
  let files ← sourceFiles t e source
  let own ← e.cflags.mapM (expand (s.placeholders e))
  match e.archive with
  | none => fail (.sourcesNeedArchive e.library)
  | some name =>
      let archive := s.stageDir e.library / "lib" / name
      let archiving : Invocation :=
        { tool := .ar
          args := ["rcs", archive.text] ++ files.map fun file => (s.objectFile e file).text
          cwd := s.scratchDir e.library
          outputs := [archive]
          label := "archive " ++ name }
      return files.map (s.compile e source (s.compileFlags ++ own)) ++ [archiving]

/-! ## Makefile -/

/-- The objects of other libraries that go into a library's archive. -/
def embeddedObjects (s : Site) (t : Tree) (e : Catalog.Entry) : Except Fault (List Path) := do
  let found ← e.embedObjects.mapM fun d => do
    let dir := s.objectDir d
    match ← Fault.ofAnswer (t.select dir ⟨[.wild "*.o"], false⟩) with
    | [] => fail (.objectsMissing e.library d dir.text)
    | objects => return objects
  return found.flatten

/-- The arguments that every use of a makefile begins with. -/
def makefileArgs (source stage : Path) : List String :=
  ["-f", (source / "Makefile").text, "srcdir=" ++ source.text, "prefix=" ++ stage.text]

/-- Runs the library's makefile. -/
def makefileRecipe (s : Site) (t : Tree) (e : Catalog.Entry) : Except Fault (List Invocation) := do
  let source ← s.existingSourceDir t e
  let stage := s.stageDir e.library
  let own ← e.makeVars.pairs.mapM fun (name, template) =>
    (expand (s.placeholders e) template).map fun value => (name, value)
  let embedded ← s.embeddedObjects t e
  let extra := if embedded = [] then []
    else [("EXTRA_OBJS", Text.join " " (embedded.map Path.text))]
  let assigned := ((OrderedMap.ofList own).insertAll extra).pairs.mergeSort
    fun a b => decide (a.1 ≤ b.1)
  return [
    { tool := .make
      args := makefileArgs source stage ++
        assigned.map (fun (name, value) => name ++ "=" ++ value) ++ ["install"]
      cwd := s.scratchDir e.library
      outputs := stagedFiles e stage
      label := "make install " ++ e.library.name }]

/-- Installs the headers of a library by its makefile. -/
def makefileHeaders (s : Site) (t : Tree) (e : Catalog.Entry) : Except Fault HeaderPlan := do
  let source ← s.existingSourceDir t e
  let stage := s.headerStageDir e.library
  return {
    library := e.library
    invocations := [
      { tool := .make
        args := makefileArgs source stage ++
          ["ARCH=" ++ s.toolchain.triple.architecture, "install-headers"]
        cwd := s.scratchDir e.library
        outputs := (e.markerHeader.map fun h => stage / "include" / h).toList
        label := "install " ++ e.library.name ++ " headers" }]
    headersDir := stage / "include" }

/-! ## Configure script -/

/-- Runs the library's configure script and then its makefile. -/
def scriptRecipe (s : Site) (t : Tree) (e : Catalog.Entry) : Except Fault (List Invocation) := do
  let source ← s.existingSourceDir t e
  let stage := s.stageDir e.library
  let own ← e.cflags.mapM (expand (s.placeholders e))
  let flags := Text.join " " (s.compileFlags ++ own)
  let cxx ← (s.toolchain.program .cxx).mapError .caused
  let args ← e.configureArgs.mapM (expand (s.placeholders e))
  return [
    { tool := .script
      args := [(source / "configure").text, "--prefix=" ++ stage.text] ++ args
      cwd := s.scratchDir e.library
      env := .ofList [
        ("CC", s.toolchain.compiler.text), ("CXX", cxx.text), ("AR", s.toolchain.archiver.text),
        ("CFLAGS", flags), ("CXXFLAGS", flags), ("LDFLAGS", Text.join " " s.linkFlags)]
      label := "configure " ++ e.library.name },
    { tool := .make
      args := ["install"]
      cwd := s.scratchDir e.library
      outputs := stagedFiles e stage
      label := "make install " ++ e.library.name }]

end Sysroot.Site

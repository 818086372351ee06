import Sysroot.Configure.Arguments
import Sysroot.Plan.Basic

/-!
# Libraries with a generated build tree

CMake generates a build tree outside the sources, Ninja builds and installs it.  The cache
entries say everything about the target; those of the catalog come last and overrule the
others.
-/

namespace Sysroot.Site

/-- An entry of the catalog with its fields replaced. -/
def expandEntry (e : Catalog.Entry) (values : OrderedMap String String) (name : String)
    (value : Configure.Entry) : Except Fault Configure.Entry :=
  match value.expand values with
  | .ok value => .ok value
  | .error fault =>
      if fault.isReported then fail (.badCacheEntry e.library name fault)
      else .error (.template fault)

/-- The arguments of the configure run. -/
def configureArguments (s : Site) (e : Catalog.Entry) : Except Fault Configure.Arguments := do
  let some platformFile := s.platformFile | fail (.noPlatformFile e.library)
  if e.needsLlvmSource ∧ s.settings.llvmSource = none then fail (.needsLlvmSource e.library)
  let values := s.placeholders e
  let ninja ← (s.toolchain.program .ninja).mapError .caused
  let cxx ← (s.toolchain.program .cxx).mapError .caused
  let file := fun (p : Path) => (⟨.filePath, p.text⟩ : Configure.Entry)
  let dir := fun (p : Path) => (⟨.path, p.text⟩ : Configure.Entry)
  let base := (({} : Configure.Arguments).generator "Ninja")
    |>.set "CMAKE_TOOLCHAIN_FILE" (file platformFile)
    |>.set "CMAKE_MODULE_PATH" (dir platformFile.parent.parent)
    |>.set "CMAKE_BUILD_TYPE" ⟨.string, "MinSizeRel"⟩
    |>.set "CMAKE_INSTALL_PREFIX" (dir (s.stageDir e.library))
    |>.set "CMAKE_MAKE_PROGRAM" (file ninja)
    |>.set "CMAKE_C_COMPILER" (file s.toolchain.compiler)
    |>.set "CMAKE_CXX_COMPILER" (file cxx)
    |>.set "CMAKE_AR" (file s.toolchain.archiver)
    |>.set "CMAKE_SYSROOT" ⟨.string, s.root.text⟩
  let own ← e.configureFlags.mapM (expand values)
  let flagged := (s.compileFlags ++ own).foldl Configure.Arguments.compilerFlag base
  let linked := s.linkFlags.foldl
    (fun a flag => (a.sharedLinkerFlag flag).programLinkerFlag flag) flagged
  let entries ← e.cacheEntries.pairs.mapM fun (name, value) =>
    (expandEntry e values name value).map fun value => (name, value)
  return entries.foldl (fun a (name, value) => a.set name value) linked

/-- Generates the build tree, then builds and installs it. -/
def configuredPlan (s : Site) (t : Tree) (e : Catalog.Entry) : Except Fault Plan := do
  let source ← s.existingSourceDir t e
  let scratch := s.scratchDir e.library
  let stage := s.stageDir e.library
  let buildDir := scratch / "cmake"
  let arguments ← s.configureArguments e
  let headers ← s.copiedHeaders t e
  return {
    library := e.library
    invocations := [
      { tool := .cmake
        args := ["-S", source.text, "-B", buildDir.text] ++ arguments.toList
        cwd := scratch
        outputs := [buildDir / "build.ninja"]
        label := "configure " ++ e.library.name },
      { tool := .ninja
        args := ["-C", buildDir.text, "install"]
        cwd := scratch
        outputs := stagedFiles e stage
        label := "ninja install " ++ e.library.name }]
    scratchDir := scratch
    stageDir := stage
    staged := stagedFiles e stage
    headers := headers }

end Sysroot.Site

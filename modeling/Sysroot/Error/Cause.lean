import Sysroot.Error.Diagnostic
import Sysroot.Error.System
import Sysroot.Library
import Sysroot.Pattern
import Sysroot.Template.Fault
import Sysroot.Text.Utf8
import Sysroot.Tool

/-!
# Causes of errors

Every error that a build reports has one of the causes below.  A cause holds what the
error is about and nothing of its wording; `Cause.diagnostic` is the one place that words
them.

A `Fault` is whatever ends an operation: a cause, which reports can show, or one of the
failures beneath, which no report shows because nothing above them gave them a cause.
-/

namespace Sysroot

/-- Why a build, or a question about one, fails. -/
inductive Cause where
  -- Settings
  | unknownLibrary (name : String)
  | fewWorkers (workers : Int)
  | shortTail (bytes : Int)
  | noLibraries
  | nothingRequested
  | badSetting (key : String)
  | badWorkersVariable (value : String)
  | settingsNotJson (complaint : String)
  | settingsNotObject
  | noSettingsFile (path : String)
  -- Catalog
  | notInCatalog (library : Library)
  | noArchiveNamed (library : Library)
  | danglingReference (library dependency : Library)
  | embedsUnrequired (library dependency : Library)
  | prerequisiteCycle (libraries : List Library)
  | badTemplate (template : String) (known : List String) (fault : Template.Fault)
  | badCacheEntry (library : Library) (entry : String) (fault : Template.Fault)
  -- Toolchain
  | malformedTriple (text : String)
  | unknownArchitecture (architecture : String) (known : List String) (text : String)
  | unresolvedTool (kind : ToolKind) (value : String)
  | notExecutable (kind : ToolKind) (path : String)
  | noToolLocation (variableName tool : String)
  | noExecutable (kind : ToolKind)
  | missingTools (tools : List String) (purpose : String)
  | needsLlvmSource (library : Library)
  -- Planning
  | noSourceTree (library : Library) (path : String)
  | headersMissing (library prerequisite : Library) (header : String)
  | archiveMissing (library prerequisite : Library) (archive : String)
  | noHeaderDirectory (library : Library) (path : String)
  | noRecipe (library : Library)
  | headersNeedBuild (library : Library)
  | noHeadersDeclared (library : Library)
  | sourcesNeedArchive (library : Library)
  | noSourcesMatched (library : Library) (path : String) (patterns : List String)
  | objectsMissing (library prerequisite : Library) (path : String)
  | noPlatformFile (library : Library)
  | scratchBlocked (library : Library) (path : String) (error : SystemError)
  -- Running
  | rootsBlocked (sysroot buildRoot : String) (error : SystemError)
  | directoryBlocked (library : Library) (run : Invocation) (path : String) (error : SystemError)
  | noScript
  | launchFailed (tool : ToolKind) (argv : List String) (cwd : String) (error : SystemError)
  | toolFailed (tool : ToolKind) (exitCode : Int) (stderrTail : String) (hint : Option String)
      (argv : List String) (cwd : String)
  | toolCancelled (tool : ToolKind) (argv : List String)
  | outputsMissing (run : Invocation) (exitCode : Int) (stderrTail : String)
      (missing : List String)
  | buildCancelled (library : Library)
  -- Installing
  | manifestNotJson (library : Library) (path : String)
  | manifestFilesInvalid (library : Library) (path : String)
  | stagedMissing (library : Library) (missing : List String)
  | headersNotThere (library : Library) (path : String)
  | ownedByOther (library : Library) (paths : List String) (owner : Library)
  | installFailed (library : Library) (root : String) (error : SystemError)
  -- From outside
  /-- An error that arrives already worded. -/
  | stated (diagnostic : Diagnostic)

namespace Cause

/-- What `Choose from` lists. -/
def chooseLibrary : String := "Choose from: " ++ Library.knownNames ++ "."

private def configuration (message : String) (hint : Option String := none)
    (context : List (String × String) := []) : Diagnostic :=
  .ofParts .configuration message hint context

private def planning (message : String) (hint : Option String)
    (context : List (String × String)) : Diagnostic :=
  .ofParts .planning message hint context

private def install (message : String) (hint : Option String)
    (context : List (String × String)) : Diagnostic :=
  .ofParts .install message hint context

/-- The wording of every cause. -/
def diagnostic : Cause → Diagnostic
  | unknownLibrary name =>
      configuration ("Unknown system library: " ++ Text.quoted name ++ ".")
        chooseLibrary [("library", name)]
  | fewWorkers n =>
      configuration "Worker count must be at least 1." none [("workers", toString n)]
  | shortTail n =>
      configuration "stderr tail size must be positive." none [("stderr_tail_bytes", toString n)]
  | noLibraries => configuration "At least one library must be requested." chooseLibrary
  | nothingRequested => configuration "At least one library must be requested."
  | badSetting key => configuration ("Invalid config `" ++ key ++ "` value.")
  | badWorkersVariable value =>
      configuration "Invalid WASM_SYSROOT_WORKERS value." none [("value", value)]
  | settingsNotJson complaint => configuration "Invalid config JSON." complaint
  | settingsNotObject => configuration "Invalid config payload type."
  | noSettingsFile path => configuration "Config file does not exist." none [("path", path)]
  | notInCatalog l =>
      configuration ("Library " ++ Text.quoted l.name ++ " is not in the catalog.") none
        [("library", l.name)]
  | noArchiveNamed l =>
      configuration ("Library " ++ Text.quoted l.name ++ " builds code but names no archive.")
        none [("library", l.name)]
  | danglingReference l d =>
      configuration ("Library " ++ Text.quoted l.name ++ " references unknown library "
        ++ Text.quoted d.name ++ ".") none [("library", l.name), ("dependency", d.name)]
  | embedsUnrequired l d =>
      configuration ("Library " ++ Text.quoted l.name ++ " embeds objects of "
        ++ Text.quoted d.name ++ " without requiring it.") none
        [("library", l.name), ("dependency", d.name)]
  | prerequisiteCycle ls => .ofCycle (ls.map Library.name) none []
  | badTemplate template known fault =>
      configuration "Catalog flag template references an unknown placeholder."
        ("Known placeholders: " ++ Text.join ", " known ++ ".")
        [("template", template), ("error", fault.text)]
  | badCacheEntry l entry fault =>
      configuration "Catalog CMake cache entry references an unknown placeholder." none
        [("library", l.name), ("entry", entry), ("error", fault.text)]
  | malformedTriple text =>
      configuration ("Malformed target triple: " ++ Text.quoted text ++ ".")
        "Use the form <arch>-<vendor>-<os>[-<environment>], e.g. wasm32-unknown-unknown."
        [("triple", text)]
  | unknownArchitecture architecture known text =>
      configuration ("Unsupported target architecture: " ++ Text.quoted architecture ++ ".")
        ("Supported architectures: " ++ Text.join ", " known ++ ".") [("triple", text)]
  | unresolvedTool kind value =>
      configuration ("Cannot resolve the `" ++ kind.name ++ "` tool " ++ Text.quoted value
        ++ " to an executable.")
        "Pass an absolute path or make the tool available on PATH."
        [("tool", kind.name), ("value", value)]
  | notExecutable kind path =>
      configuration ("The `" ++ kind.name ++ "` tool does not resolve to an existing executable.")
        "Check the tool path and its executable bit." [("tool", kind.name), ("path", path)]
  | noToolLocation variableName tool =>
      configuration ("Need `" ++ variableName ++ "` or `LLVM_ROOT` to locate the " ++ tool
        ++ " tool.")
        "Export LLVM_ROOT pointing at an LLVM install with WebAssembly support."
        [("variable", variableName)]
  | noExecutable kind =>
      configuration ("No executable configured for the `" ++ kind.name ++ "` tool.")
        ("Install " ++ kind.name ++ " or pass its path when creating the toolchain.")
        [("tool", kind.name), ("operation", "tool_path")]
  | missingTools tools purpose =>
      configuration ("Missing build tools required by " ++ purpose ++ ": "
        ++ Text.join ", " tools ++ ".")
        "Install the missing tools or pass their paths explicitly."
        [("tools", Text.join "," tools), ("operation", "require")]
  | needsLlvmSource l =>
      configuration ("Library " ++ Text.quoted l.name ++ " needs the LLVM source tree.")
        "Set `llvm_src` in the config or export LLVM_SRC." [("library", l.name)]
  | noSourceTree l path =>
      planning ("Sources for " ++ Text.quoted l.name ++ " are missing.")
        "Check out the library sources under the configured sources directory."
        [("library", l.name), ("path", path)]
  | headersMissing l d header =>
      planning ("Headers of " ++ Text.quoted d.name ++ " needed by " ++ Text.quoted l.name
        ++ " are not installed.")
        "Provision the prerequisite's headers or build it first."
        [("library", l.name), ("prerequisite", d.name), ("header", header)]
  | archiveMissing l d archive =>
      planning ("Prerequisite " ++ Text.quoted d.name ++ " of " ++ Text.quoted l.name
        ++ " is not installed.")
        "Build the prerequisite first or enable include_prerequisites."
        [("library", l.name), ("prerequisite", d.name), ("archive", archive)]
  | noHeaderDirectory l path =>
      planning ("Public header directory of " ++ Text.quoted l.name ++ " is missing.") none
        [("library", l.name), ("path", path)]
  | noRecipe l =>
      planning ("Native library " ++ Text.quoted l.name ++ " declares no build recipe.") none
        [("library", l.name)]
  | headersNeedBuild l =>
      planning ("Library " ++ Text.quoted l.name ++ " cannot provision headers without building.")
        none [("library", l.name)]
  | noHeadersDeclared l =>
      planning ("Library " ++ Text.quoted l.name ++ " declares no public header directory.") none
        [("library", l.name)]
  | sourcesNeedArchive l =>
      planning ("Library " ++ Text.quoted l.name ++ " compiles sources but names no archive.") none
        [("library", l.name)]
  | noSourcesMatched l path patterns =>
      planning ("No sources matched for " ++ Text.quoted l.name ++ ".") none
        [("library", l.name), ("path", path), ("patterns", Text.join ", " patterns)]
  | objectsMissing l d path =>
      planning ("Objects of " ++ Text.quoted d.name ++ " needed by " ++ Text.quoted l.name
        ++ " are missing.")
        ("Rebuild " ++ Text.quoted d.name ++ " in the same build root first.")
        [("library", l.name), ("prerequisite", d.name), ("path", path)]
  | noPlatformFile l =>
      planning "The CMake toolchain file has not been generated." none [("library", l.name)]
  | scratchBlocked l path error =>
      planning ("Could not prepare the build directory of " ++ Text.quoted l.name ++ ".")
        "Remove whatever occupies the build directory and re-run."
        [("library", l.name), ("path", path), ("error", error.text)]
  | rootsBlocked sysroot buildRoot error =>
      configuration "Could not create the sysroot or build root directories." none
        [("sysroot", sysroot), ("build_root", buildRoot), ("error", error.text)]
  | directoryBlocked l run path error =>
      .ofToolFailure ("Could not create a directory needed by " ++ run.describe ++ ".")
        { tool := some run.tool.name } none
        [("library", l.name), ("path", path), ("error", error.text)]
  | noScript =>
      .ofToolFailure "Script invocation has no executable." { tool := some "script" } none []
  | launchFailed tool argv cwd error =>
      .ofToolFailure ("Failed to launch " ++ tool.name ++ " tool.") { tool := some tool.name }
        "Check that the executable exists and the working directory is valid."
        [("command", Text.join " " argv), ("cwd", cwd), ("error", error.text)]
  | toolFailed tool exitCode stderrTail hint argv cwd =>
      .ofToolFailure (tool.name ++ " tool exited with status " ++ toString exitCode ++ ".")
        { tool := some tool.name, exitCode := some exitCode, stderrTail := stderrTail } hint
        [("command", Text.join " " argv), ("cwd", cwd)]
  | toolCancelled tool argv =>
      .ofToolFailure "Tool invocation was cancelled."
        { tool := some tool.name, cancelled := true } none [("command", Text.join " " argv)]
  | outputsMissing run exitCode stderrTail missing =>
      .ofToolFailure (run.describe ++ " did not produce its declared outputs.")
        { tool := some run.tool.name, exitCode := some exitCode, stderrTail := stderrTail }
        "The tool exited successfully but the expected files are absent."
        [("missing", Text.join ", " missing), ("cwd", run.cwd.text)]
  | buildCancelled l =>
      .ofToolFailure "Sysroot build was cancelled." { cancelled := true } none
        [("library", l.name)]
  | manifestNotJson l path =>
      install "Sysroot ownership manifest is not valid JSON."
        "Delete the manifest and rebuild the library." [("library", l.name), ("path", path)]
  | manifestFilesInvalid l path =>
      install "Sysroot ownership manifest has an invalid `files` list." none
        [("library", l.name), ("path", path)]
  | stagedMissing l missing =>
      install ("Staged outputs of " ++ Text.quoted l.name ++ " are missing.")
        "The build step finished without staging every declared output."
        [("library", l.name), ("missing", Text.join ", " missing)]
  | headersNotThere l path =>
      install "Header directory to install does not exist." none
        [("library", l.name), ("path", path)]
  | ownedByOther l paths owner =>
      install ("Files staged by " ++ Text.quoted l.name ++ " are owned by another library.")
        "Two libraries may not install the same sysroot path."
        [("library", l.name), ("paths", Text.join ", " (paths.take 10)), ("owner", owner.name)]
  | installFailed l root error =>
      install ("Failed to install " ++ Text.quoted l.name ++ " into the sysroot.")
        "The files copied for this library were rolled back."
        [("library", l.name), ("root", root), ("error", error.text)]
  | stated d => d

/-- What an invocation error knows about the tool; other errors know nothing. -/
def toolFailure? (c : Cause) : Option ToolFailure :=
  match c.diagnostic.category with
  | .invocation failure => some failure
  | _ => none

end Cause

/-- What ends an operation. -/
inductive Fault where
  /-- An error with a cause. -/
  | caused (cause : Cause)
  /-- The file system refused. -/
  | system (error : SystemError)
  /-- A path, an argument or a variable has a NUL in it, so that the system cannot be asked. -/
  | nullCharacter
  /-- A file does not hold UTF-8 text. -/
  | notText
  /-- A JSON text writes a number with too many digits. -/
  | longNumber
  /-- The arrays and objects of a JSON text are too deep in each other. -/
  | tooDeep
  /-- A template cannot be expanded. -/
  | template (fault : Template.Fault)
  /-- A text is no file pattern. -/
  | pattern (fault : Pattern.Fault)

/-- The failure of a refused operation. -/
def Fault.ofRefusal : SystemError → Fault
  | .nullCharacter => .nullCharacter
  | error => .system error

/-- An answer of the file system, whose refusal is a failure. -/
def Fault.ofAnswer {α : Type} (x : Except SystemError α) : Except Fault α :=
  x.mapError .ofRefusal

end Sysroot

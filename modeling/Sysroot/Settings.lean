import Sysroot.Catalog.Standard
import Sysroot.Json.Reader
import Sysroot.Library.Reading
import Sysroot.Text.Numeral

/-!
# Settings of a build

Where the sources are, where to build, where the sysroot is, and what to build.  Settings
come as JSON, with every key checked for its type, and may be overridden by environment
variables.  Both ways end in `Settings.checked`, so settings that were accepted always
name a library and have a positive worker count and tail size.
-/

namespace Sysroot

/-- What a build is asked to do. -/
structure Settings where
  sourcesDir : Path
  buildRoot : Path
  sysrootDir : Path
  /-- The libraries to build, each once. -/
  libraries : List Library := Catalog.standardRequest
  llvmSource : Option Path := none
  workers : Int := 1
  /-- The libraries whose build directories are removed first, in the order of `Library.all`. -/
  clobber : List Library := []
  emitWast : Bool := false
  includePrerequisites : Bool := true
  /-- How much of a tool's output is kept. -/
  tailBytes : Int := 8192
deriving DecidableEq

namespace Settings

/-- How much of a tool's output is kept when nothing else is asked for. -/
def standardTailBytes : Int := 8192

/-- Refuses settings that no build can use. -/
def checked (s : Settings) : Except Cause Settings :=
  if s.workers < 1 then .error (.fewWorkers s.workers)
  else if s.tailBytes < 1 then .error (.shortTail s.tailBytes)
  else if s.libraries = [] then .error .noLibraries
  else .ok s

/-- The directory in which a library is built. -/
def scratchDir (s : Settings) (l : Library) : Path := s.buildRoot / (l.name ++ "-build")

/-! ## From JSON -/

/-- The path of a text, below a base unless it is absolute. -/
def pathBelow (base : Path) (text : String) : Path := base / text

/-- A key that must be a text and not empty. -/
def requiredText (v : Json) (key : String) : Except Cause String :=
  match v.field? key with
  | some (.str s) => if s = "" then .error (.badSetting key) else .ok s
  | _ => .error (.badSetting key)

/-- A key that may be absent or `null`, and otherwise is a text and not empty. -/
def optionalText (v : Json) (key : String) : Except Cause (Option String) :=
  match v.field? key with
  | none | some .null => .ok none
  | some (.str s) => if s = "" then .error (.badSetting key) else .ok (some s)
  | _ => .error (.badSetting key)

/-- A text, if the value is one. -/
def asText? : Json → Option String
  | .str s => some s
  | _ => none

/-- A key that names libraries, by one text with commas or by a list. -/
def libraryNames (v : Option Json) (standard : List Library) (key : String) :
    Except Cause (List String) :=
  match v with
  | none => .ok (standard.map Library.name)
  | some (.str s) => .ok (Text.split ',' s)
  | some (.arr items) =>
      match items.mapM asText? with
      | some names => .ok names
      | none => .error (.badSetting key)
  | some _ => .error (.badSetting key)

/-- A key that is a whole number. -/
def wholeNumber (v : Json) (key : String) (standard : Int) : Except Cause Int :=
  match v.field? key with
  | none => .ok standard
  | some (.int n) => .ok n
  | some _ => .error (.badSetting key)

/-- A key that is a truth value. -/
def truthValue (v : Json) (key : String) (standard : Bool) : Except Cause Bool :=
  match v.field? key with
  | none => .ok standard
  | some (.bool b) => .ok b
  | some _ => .error (.badSetting key)

/-- A set of libraries in the order of `Library.all`. -/
def asSet (l : List Library) : List Library := Library.all.filter (· ∈ l)

/-- The settings of a JSON object, relative paths being below `base`. -/
def ofJson (base : Path) (v : Json) : Except Cause Settings := do
  let clobber := match v.field? "clobber" with
    | some (.str "all") => none
    | other => some other
  let llvmSource ← optionalText v "llvm_src"
  let sourcesDir ← requiredText v "sources_dir"
  let buildRoot ← requiredText v "build_root"
  let sysrootDir ← requiredText v "sysroot_dir"
  let libraries ← libraryNames (v.field? "libraries") Catalog.standardRequest "libraries"
  let libraries ← Library.readAll libraries
  let workers ← wholeNumber v "workers" 1
  let clobber ← match clobber with
    | none => pure Library.all
    | some names => do Library.readAll (← libraryNames names [] "clobber")
  let emitWast ← truthValue v "emit_wast" false
  let includePrerequisites ← truthValue v "include_prerequisites" true
  let tailBytes ← wholeNumber v "stderr_tail_bytes" standardTailBytes
  checked {
    sourcesDir := pathBelow base sourcesDir
    buildRoot := pathBelow base buildRoot
    sysrootDir := pathBelow base sysrootDir
    libraries := libraries
    llvmSource := llvmSource.map (pathBelow base)
    workers := workers
    clobber := asSet clobber
    emitWast := emitWast
    includePrerequisites := includePrerequisites
    tailBytes := tailBytes }

/-- The settings of a JSON text. -/
def ofText (base : Path) (text : String) : Except Fault Settings :=
  match Json.read text with
  | .error .longNumber => .error .longNumber
  | .error .tooDeep => .error .tooDeep
  | .error (.malformed complaint remaining) =>
      .error (.caused (.settingsNotJson (Json.placedText complaint text remaining)))
  | .ok (.obj fields) => (ofJson base (.obj fields)).mapError .caused
  | .ok _ => .error (.caused .settingsNotObject)

/-! ## From the environment -/

/-- A variable that is set and not empty. -/
def setVariable (env : OrderedMap String String) (name : String) : Option String :=
  match env.find? name with
  | none | some "" => none
  | some value => some value

/-- The variables that override settings. -/
def overriding : List String :=
  ["WASM_SYSROOT", "WASM_SYSROOT_SOURCES", "WASM_SYSROOT_BUILD", "WASM_SYSROOT_LIBRARIES",
    "WASM_SYSROOT_WORKERS", "LLVM_SRC"]

/-- Whether an environment overrides anything. -/
def overrides (env : OrderedMap String String) : Bool :=
  overriding.any fun name => (setVariable env name).isSome

/-- The settings after the overrides of an environment. -/
def withEnvironment (s : Settings) (env : OrderedMap String String) : Except Cause Settings := do
  let path := fun name (old : Path) => ((setVariable env name).map Path.ofText).getD old
  let libraries ← match setVariable env "WASM_SYSROOT_LIBRARIES" with
    | some names => Library.readList names
    | none => pure s.libraries
  let workers ← match setVariable env "WASM_SYSROOT_WORKERS" with
    | some text =>
        match Text.integer? text with
        | some n => pure n
        | none => throw (.badWorkersVariable text)
    | none => pure s.workers
  let overridden := { s with
    sysrootDir := path "WASM_SYSROOT" s.sysrootDir
    sourcesDir := path "WASM_SYSROOT_SOURCES" s.sourcesDir
    buildRoot := path "WASM_SYSROOT_BUILD" s.buildRoot
    libraries := libraries
    workers := workers
    llvmSource := match setVariable env "LLVM_SRC" with
      | some text => some (Path.ofText text)
      | none => s.llvmSource }
  if overrides env then overridden.checked else return s

end Settings

end Sysroot

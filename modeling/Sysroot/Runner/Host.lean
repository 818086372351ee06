import Sysroot.Runner.Basic
import Sysroot.Settings
import Sysroot.Toolchain.Basic

/-!
# Running on the host

The host runs the programs of the toolchain.  What a program does is a parameter: it is a
function of the program's content, its arguments, its environment and the file tree, whose
working directory is that of the invocation.  Here is everything around it: which file is
run, when none can be, what is kept of the output, and how a run ends.

## Which file is run

A name with a slash is a path, looked up from the directory of the invocation.  Any other
name is looked for along the search path of the program's environment.  Where several
places are tried, the reported reason is the first one that is not the absence of a file;
if there is none, the last one.
-/

namespace Sysroot

/-- What a program did. -/
structure Execution where
  tree : Tree
  stdout : List UInt8 := []
  stderr : List UInt8 := []
  /-- The exit code; `none` for a program that runs until it is stopped. -/
  exitCode : Option Int := some 0

/-- A host. -/
structure Host where
  /-- The environment of programs. -/
  env : OrderedMap String String := .empty
  /-- What running a content does, or why it cannot be run. -/
  program : List UInt8 → List String → OrderedMap String String → Tree → Except Errno Execution

/-- A toolchain on a host. -/
structure HostRunner where
  host : Host
  toolchain : Toolchain
  /-- How many bytes of each output are kept. -/
  tailBytes : Int := Settings.standardTailBytes

namespace HostRunner

/-- What a runner on the host remembers. -/
structure State where
  cancelled : Bool := false

/-- The command line of an invocation. -/
def commandLine (h : HostRunner) (tool : ToolKind) (args : List String) :
    Except Cause (List String) :=
  match tool, args with
  | .script, [] => .error .noScript
  | .script, args => .ok args
  | tool, args => (h.toolchain.program tool).map fun p => p.text :: args

/-- The end of an output: the output is entered at most `limit` bytes before its end and
read from there. -/
def readTail (output : List UInt8) (limit : Int) : String :=
  Text.Utf8.tailText (output.drop (output.length - limit).toNat) limit

/-- The search path of an environment that gives none. -/
def standardPath : String := "/bin:/usr/bin"

/-- The places where a program of a name may be. -/
def candidates (env : OrderedMap String String) (name : String) : List String :=
  if '/' ∈ name.toList then [name]
  else (Text.split ':' ((env.find? "PATH").getD standardPath)).map fun dir =>
    if dir = "" then name else if dir.endsWith "/" then dir ++ name else dir ++ "/" ++ name

/-- Runs the program at one place. -/
def runAt (h : HostRunner) (env : OrderedMap String String) (argv : List String) (t : Tree)
    (place : String) : Except Errno Execution := do
  match t.get? (← t.locateText place) with
  | none => .error .noEntry
  | some (.file content true) => h.host.program content argv env t
  | some _ => .error .access

/-- Runs the program at the first place that has one; `reason` is the reason to report if
none has. -/
def runFirst (h : HostRunner) (env : OrderedMap String String) (argv : List String) (t : Tree)
    (reason : Errno) : List String → Except Errno Execution
  | [] => .error reason
  | place :: rest =>
      match h.runAt env argv t place with
      | .ok x => .ok x
      | .error e =>
          let absent := fun (r : Errno) => r = .noEntry ∨ r = .notDirectory
          h.runFirst env argv t (if absent reason then e else reason) rest

/-- Whether a command can be put to the system: no text has a NUL in it, and no variable's name
has the sign that separates it from its value. -/
def isPassable (argv : List String) (cwd : Path) (overlay : OrderedMap String String) : Bool :=
  (cwd.text :: argv ++ overlay.keys ++ overlay.values).all (!Tree.hasNull ·) &&
    overlay.keys.all fun name => '=' ∉ name.toList

/-- Starts a command in a directory, or says why that is impossible. -/
def launch (h : HostRunner) (argv : List String) (cwd : Path) (overlay : OrderedMap String String)
    (t : Tree) : Except SystemError Execution := do
  if !isPassable argv cwd overlay then throw .nullCharacter
  let env := h.host.env.insertAll overlay.pairs
  let refused := fun reason => SystemError.refused reason cwd.text
  let l ← (t.locate cwd).mapError refused
  match t.get? l with
  | none => throw (refused .noEntry)
  | some .dir =>
      let name := argv.head?.getD ""
      let x ← (h.runFirst env argv { t with home := l } .noEntry (candidates env name)).mapError
        fun reason => .refused reason name
      return { x with tree := { x.tree with home := t.home } }
  | some _ => throw (refused .notDirectory)

/-- Runs a tool to its end.  A tool that does not end by itself is stopped, and with it the
build. -/
def execute (h : HostRunner) (i : Invocation) (t : Tree) (s : State) : Ran State :=
  match h.commandLine i.tool i.args with
  | .error cause => ⟨.error (.caused cause), t, s, false⟩
  | .ok argv =>
      let cancelled := Except.error (Fault.caused (.toolCancelled i.tool argv))
      if s.cancelled then ⟨cancelled, t, s, false⟩
      else
        match h.launch argv i.cwd i.env t with
        | .error .nullCharacter => ⟨.error .nullCharacter, t, s, false⟩
        | .error e => ⟨.error (.caused (.launchFailed i.tool argv i.cwd.text e)), t, s, false⟩
        | .ok x =>
            match x.exitCode with
            | none => ⟨cancelled, x.tree, { s with cancelled := true }, true⟩
            | some code =>
                let stderrTail := readTail x.stderr h.tailBytes
                let result := if code = 0 then
                    Except.ok {
                      tool := i.tool, argv := argv, cwd := i.cwd, exitCode := code
                      stdoutTail := readTail x.stdout h.tailBytes, stderrTail := stderrTail }
                  else
                    .error (.caused (.toolFailed i.tool code stderrTail
                      "Check the tool's stderr output for details." argv i.cwd.text))
                ⟨result, x.tree, s, false⟩

/-- The host as a way to run invocations. -/
def runner (h : HostRunner) : Runner State where
  run i t s := (h.execute i t s).andThen fun c => do Tree.Action.ofExcept (i.verify (← get) c)
  cancel s := { s with cancelled := true }

end HostRunner

end Sysroot

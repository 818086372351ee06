import Sysroot.Fingerprint.Sha256
import Sysroot.Runner.Basic

/-!
# Rehearsals

A rehearsal runs no tool.  It records each invocation and writes a placeholder for every
output that the invocation declares, so that a build can be gone through without a
toolchain.  The content of a placeholder depends on the tool, the arguments and the name
of the output only: the same plan gives the same files.

What may go wrong is scripted: which invocations fail, which make somebody ask the build
to stop, what else happens meanwhile, and which outputs vanish again.
-/

namespace Sysroot

/-- A scripted rehearsal. -/
structure Rehearsal where
  /-- The invocations that fail. -/
  fails : Invocation → Bool := fun _ => false
  /-- The invocations during which the build is asked to stop. -/
  stops : Invocation → Bool := fun _ => false
  /-- What else happens to the file tree when an invocation runs. -/
  incident : Invocation → Tree.Action Unit := fun _ => pure ()
  /-- The names of outputs that vanish after their invocation. -/
  forgets : List String := []
  exitCode : Int := 1
  stderr : String := "error: injected failure"

namespace Rehearsal

/-- What a rehearsal remembers. -/
structure State where
  /-- The invocations so far, in order. -/
  invocations : List Invocation := []
  cancelled : Bool := false

/-- When an invocation meets a rule: by its tool, by a part of some argument, or both. -/
structure Rule where
  tool : Option ToolKind := none
  argContains : Option String := none

/-- Whether one text is part of another. -/
def occursIn (part whole : List Char) : Bool :=
  part.isPrefixOf whole ||
    match whole with
    | [] => false
    | _ :: rest => occursIn part rest

/-- Whether a rule is met. -/
def Rule.matches (r : Rule) (i : Invocation) : Bool :=
  r.tool.all (· = i.tool) &&
    r.argContains.all fun part => i.args.any fun arg => occursIn part.toList arg.toList

/-- The content of a placeholder. -/
def placeholder (i : Invocation) (output : Path) : String :=
  let digest := Fingerprint.Sha256.hexDigest (Text.Utf8.bytesOf (Text.join "\x00" i.args))
  "wasmsysroot-placeholder: tool=" ++ i.tool.name ++ " output=" ++ output.name ++
    "\ndigest=" ++ digest ++ "\n"

/-- Records an invocation and goes through its script. -/
def execute (r : Rehearsal) (i : Invocation) (t : Tree) (s : State) : Ran State :=
  if s.cancelled then ⟨.error (.caused (.toolCancelled i.tool i.args)), t, s, false⟩
  else
    let s := { s with invocations := s.invocations ++ [i] }
    match r.incident i t with
    | (.error fault, t) => ⟨.error fault, t, s, false⟩
    | (.ok (), t) =>
        let s := { s with cancelled := r.stops i }
        let result := if r.fails i then
            Except.error (.caused (.toolFailed i.tool r.exitCode r.stderr none i.args i.cwd.text))
          else
            .ok { tool := i.tool, argv := i.args, cwd := i.cwd, exitCode := 0 }
        ⟨result, t, s, r.stops i⟩

/-- Writes a placeholder for each output. -/
def writeOutputs (i : Invocation) : List Path → Tree.Action Unit
  | [] => return
  | output :: rest => do
      Tree.Action.ensureDirs output.parent
      Tree.Action.writeText output (placeholder i output)
      writeOutputs i rest

/-- Removes the outputs that are to vanish. -/
def forgetOutputs (r : Rehearsal) : List Path → Tree.Action Unit
  | [] => return
  | output :: rest => do
      if output.name ∈ r.forgets && (← Tree.Action.see (Tree.occupies · output)) then
        Tree.Action.apply (Tree.unlink · output)
      forgetOutputs r rest

/-- What follows once an invocation has gone well: its outputs are written and verified, and
some vanish. -/
def settle (r : Rehearsal) (i : Invocation) (c : Captured) : Tree.Action Captured := do
  writeOutputs i i.outputs
  let c ← Tree.Action.ofExcept (i.verify (← get) c)
  r.forgetOutputs i.outputs
  return c

/-- A rehearsal as a way to run invocations. -/
def runner (r : Rehearsal) : Runner State where
  run i t s := (r.execute i t s).andThen (r.settle i)
  cancel s := { s with cancelled := true }

end Rehearsal

end Sysroot

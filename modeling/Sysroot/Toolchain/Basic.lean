import Sysroot.Tree.Action
import Sysroot.Triple

/-!
# Toolchains

A toolchain is a target and the programs that build for it.  It is made from names or
paths: a text with a slash is a path, any other is looked for along the search path.  A
compiler, a linker and an archiver there must be; the build tools may be absent, and then
only the libraries that need them cannot be built.  Whatever is there must be a program.
-/

namespace Sysroot

/-- A target and the programs that build for it. -/
structure Toolchain where
  triple : Triple
  compiler : Path
  linker : Path
  archiver : Path
  cxxCompiler : Option Path := none
  cmake : Option Path := none
  ninja : Option Path := none
  make : Option Path := none
deriving DecidableEq

namespace Toolchain

/-- The program of a kind, if there is one.  Where there is no compiler for C++, the one
for C serves.  A script is no program of the toolchain. -/
def program? (t : Toolchain) : ToolKind → Option Path
  | .cc => some t.compiler
  | .cxx => some (t.cxxCompiler.getD t.compiler)
  | .ld => some t.linker
  | .ar => some t.archiver
  | .cmake => t.cmake
  | .ninja => t.ninja
  | .make => t.make
  | .script => none

/-- Whether invocations of a kind can be run. -/
def has (t : Toolchain) (kind : ToolKind) : Bool := kind = .script || (t.program? kind).isSome

/-- The program of a kind. -/
def program (t : Toolchain) (kind : ToolKind) : Except Cause Path :=
  match t.program? kind with
  | some p => .ok p
  | none => .error (.noExecutable kind)

/-- Refuses to go on when programs are missing. -/
def demand (t : Toolchain) (kinds : List ToolKind) (purpose : String) : Except Cause Unit :=
  let missing := ((kinds.filter fun k => !t.has k).map ToolKind.name).eraseDups.mergeSort
    fun a b => decide (a ≤ b)
  if missing = [] then .ok () else .error (.missingTools missing purpose)

/-! ## The target -/

/-- The target's architecture. -/
def architecture (t : Toolchain) : Triple.Architecture :=
  (Triple.architecture? t.triple.architecture).getD ⟨t.triple.architecture, 32, .little⟩

/-- The bits of a pointer. -/
def pointerBits (t : Toolchain) : Nat := t.architecture.pointerBits

/-- The bytes of a pointer. -/
def pointerBytes (t : Toolchain) : Nat := t.pointerBits / 8

/-- The text of the target. -/
def target (t : Toolchain) : String := t.triple.text

/-! ## Making a toolchain -/

/-- The first program of a name along a search path.  The empty name names no program. -/
def search (tree : Tree) (searchPath name : String) : Option Path :=
  if searchPath = "" ∨ name = "" then none
  else ((Text.split ':' searchPath).map fun dir => Path.ofText dir / name).find? tree.isProgram

/-- The program that a text means. -/
def resolve (tree : Tree) (searchPath text : String) : Option Path :=
  if '/' ∈ text.toList then some (Path.ofText text) else search tree searchPath text

/-- What a toolchain is made from. -/
structure Request where
  triple : String := Triple.standardText
  compiler : String
  linker : String
  archiver : String
  cxxCompiler : Option String := none
  cmake : Option String := some "cmake"
  ninja : Option String := some "ninja"
  make : Option String := some "make"

/-- Refuses a path that is no program. -/
def checkProgram (tree : Tree) (kind : ToolKind) (p : Path) : Except Fault Unit := do
  if !(← Fault.ofAnswer (tree.query p Tree.isProgram)) then
    throw (.caused (.notExecutable kind p.text))

/-- The kinds of program in the order in which they are checked. -/
def checkOrder : List ToolKind := [.cc, .ld, .ar, .cxx, .cmake, .ninja, .make]

/-- Makes a toolchain. -/
def make? (tree : Tree) (searchPath : String) (r : Request) : Except Fault Toolchain := do
  let triple ← (Triple.read r.triple).mapError .caused
  let required := fun kind text => match resolve tree searchPath text with
    | some p => Except.ok p
    | none => Except.error (Fault.caused (.unresolvedTool kind text))
  let compiler ← required .cc r.compiler
  let linker ← required .ld r.linker
  let archiver ← required .ar r.archiver
  let optional := fun text : Option String => text.bind (resolve tree searchPath)
  let t : Toolchain := {
    triple := triple
    compiler := compiler
    linker := linker
    archiver := archiver
    cxxCompiler := optional r.cxxCompiler
    cmake := optional r.cmake
    ninja := optional r.ninja
    make := optional r.make }
  for kind in checkOrder do
    match t.program? kind with
    | some p => checkProgram tree kind p
    | none => pure ()
  return t

/-- What to make a toolchain from, by the variables of an environment: each tool has one of
its own, and `LLVM_ROOT` gives the directory of those that have none. -/
def Request.ofEnvironment (env : OrderedMap String String) : Except Cause Request := do
  let given := fun name => match env.find? name with
    | none | some "" => none
    | some value => some value
  let pick := fun name tool => match given name, given "LLVM_ROOT" with
    | some value, _ => Except.ok value
    | none, some root => Except.ok (Path.ofText root / "bin" / tool).text
    | none, none => Except.error (Cause.noToolLocation name tool)
  let compiler ← pick "WASM_CC" "clang"
  let cxxCompiler ← pick "WASM_CXX" "clang++"
  let linker ← pick "WASM_LD" "wasm-ld"
  let archiver ← pick "WASM_AR" "llvm-ar"
  return {
    triple := (env.find? "WASM_TARGET").getD Triple.standardText
    compiler := compiler
    cxxCompiler := some cxxCompiler
    linker := linker
    archiver := archiver
    cmake := some ((env.find? "CMAKE").getD "cmake")
    ninja := some ((env.find? "NINJA").getD "ninja")
    make := some ((env.find? "MAKE").getD "make") }

end Toolchain

end Sysroot

import Sysroot.OrderedMap
import Sysroot.Path

/-!
# Tools and their invocations

A plan is a list of invocations: which tool, with which arguments, in which directory,
and which files must exist afterwards.
-/

namespace Sysroot

/-- The kinds of tool a plan may use. -/
inductive ToolKind where
  | cc
  | cxx
  | ld
  | ar
  | cmake
  | ninja
  | make
  /-- A program that the invocation itself names by its first argument. -/
  | script
deriving DecidableEq, Repr, Inhabited

namespace ToolKind

/-- Every kind, in the order of their declaration. -/
def all : List ToolKind := [cc, cxx, ld, ar, cmake, ninja, make, script]

/-- The name by which messages and reports know a kind. -/
def name : ToolKind → String
  | cc => "cc"
  | cxx => "cxx"
  | ld => "ld"
  | ar => "ar"
  | cmake => "cmake"
  | ninja => "ninja"
  | make => "make"
  | script => "script"

/-- The kind of a name. -/
def ofName? (s : String) : Option ToolKind := all.find? fun k => k.name = s

end ToolKind

/-- One run of a tool. -/
structure Invocation where
  tool : ToolKind
  args : List String
  /-- The directory the tool runs in. -/
  cwd : Path
  /-- The files that must exist once the tool has run. -/
  outputs : List Path := []
  /-- Variables that the tool sees besides those of the environment. -/
  env : OrderedMap String String := .empty
  /-- What to call the run in messages, if not by its command line. -/
  label : String := ""

/-- How messages call an invocation. -/
def Invocation.describe (i : Invocation) : String :=
  if i.label = "" then i.tool.name ++ " " ++ Text.join " " i.args else i.label

/-- What is kept of a tool that ran to its end. -/
structure Captured where
  tool : ToolKind
  argv : List String
  cwd : Path
  exitCode : Int
  stdoutTail : String := ""
  stderrTail : String := ""

end Sysroot

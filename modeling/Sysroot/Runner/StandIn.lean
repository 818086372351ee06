import Sysroot.Runner.Host

/-!
# Stand-ins for programs

A stand-in is a program that does little and does it predictably: it writes fixed texts,
shows its arguments and variables, touches files, and ends with a given code or not at
all.
-/

namespace Sysroot

/-- A stand-in. -/
structure StandIn where
  stdout : String := ""
  stderr : String := ""
  /-- How often the fixed texts are written. -/
  repetitions : Nat := 1
  /-- Whether the arguments are shown, one to a line. -/
  showsArgs : Bool := false
  /-- The variables that are shown, one to a line. -/
  showsVariables : List String := []
  /-- The files that are created, or emptied if they exist. -/
  touches : List String := []
  /-- Whether the program runs until it is stopped. -/
  hangs : Bool := false
  /-- The code to end with, of which the system keeps one byte. -/
  exitCode : Int := 0

namespace StandIn

/-- A text written several times. -/
def repeated (n : Nat) (s : String) : List UInt8 :=
  (List.replicate n (Text.Utf8.bytesOf s)).flatten

/-- Creates or empties a file; where that is refused nothing happens. -/
def touch (t : Tree) (file : String) : Tree :=
  match t.writeFile (Path.ofText file) [] with
  | .ok t => t
  | .error _ => t

/-- What a stand-in does; the first argument is the program's own name and not shown. -/
def run (s : StandIn) (argv : List String) (env : OrderedMap String String) (t : Tree) :
    Execution where
  tree := s.touches.foldl touch t
  stdout := repeated s.repetitions s.stdout ++
    (if s.showsArgs then (argv.drop 1).flatMap fun a => Text.Utf8.bytesOf (a ++ "\n") else []) ++
    s.showsVariables.flatMap fun v => Text.Utf8.bytesOf ((env.find? v).getD "" ++ "\n")
  stderr := repeated s.repetitions s.stderr
  exitCode := if s.hangs then none else some (s.exitCode % 256)

end StandIn

end Sysroot

import Sysroot.Runner.StandIn
import Sysroot.Text.Numeral

/-!
# Scripts

A program that is a text names in its first line, after `#!`, the program that interprets
it.  The only interpreter of a host is the shell.  Of a shell script one command counts, an
`exit` that comes first: it gives the code with which the script ends.
-/

namespace Sysroot.Script

/-- Where the shell is. -/
def shell : List Char := "/bin/sh".toList

/-- Whether a character separates the words of a line. -/
def isGap (c : Char) : Bool := c = ' ' || c = '\t'

/-- The interpreter that a text names and what comes after its first line; nothing for a text
that names none. -/
def split? : List Char → Option (List Char × List Char)
  | '#' :: '!' :: r =>
      let line := r.takeWhile (· ≠ '\n')
      let interpreter := (line.dropWhile isGap).takeWhile (!isGap ·)
      if interpreter = [] then none else some (interpreter, r.drop (line.length + 1))
  | _ => none

/-- A shell script is split after its first line. -/
theorem split?_shell (body : List Char) :
    split? ("#!/bin/sh\n".toList ++ body) = some (shell, body) := by
  rfl

/-- What a shell script does. -/
def behaviour (body : List Char) : StandIn :=
  let command := body.dropWhile Char.isWhitespace
  if "exit ".toList.isPrefixOf command then
    let digits := (command.drop 5).takeWhile Char.isDigit
    { exitCode := (Text.integer? (String.ofList digits)).getD 0 }
  else {}

/-- Runs a text as a script, or says why that is impossible. -/
def run (text : List Char) (argv : List String) (env : OrderedMap String String) (t : Tree) :
    Except Errno Execution :=
  match split? text with
  | none => .error .execFormat
  | some (interpreter, body) =>
      if interpreter = shell then .ok ((behaviour body).run argv env t) else .error .noEntry

end Sysroot.Script

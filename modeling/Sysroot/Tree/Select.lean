import Sysroot.Pattern
import Sysroot.Tree.Walk

/-!
# The paths that match a pattern

A component with a name goes to that name, a wild one to each matching name in the
directory, links followed; two stars go to the directory itself and every directory
physically below it.  Only a last component may match what is no directory.  A path that
cannot be asked about fails the whole selection.
-/

namespace Sysroot.Tree

/-- The paths that components lead to from a path. -/
def selectFrom (t : Tree) (dirsOnly : Bool) (p : Path) :
    List Pattern.Component → Except SystemError (List Path)
  | [] => .ok [p]
  | c :: rest =>
      let next := fun name : String => (⟨p.anchor, p.parts ++ [name]⟩ : Path)
      let leaf := rest = [] && !dirsOnly
      match c with
      | .exact name => do
          if ← t.query (next name) (if leaf then holds else isDir) then
            selectFrom t dirsOnly (next name) rest
          else return []
      | .wild text => do
          let found ← (t.list p).mapM fun name => do
            if (← if leaf then pure true else t.query (next name) isDir) &&
                Pattern.matchName text name then
              selectFrom t dirsOnly (next name) rest
            else return []
          return found.flatten
      | .descend => List.flatten <$> (t.dirsUnder p).mapM fun d => selectFrom t dirsOnly d rest

/-- The paths below a directory that match a pattern, in order and without repetition. -/
def select (t : Tree) (dir : Path) (pattern : Pattern) : Except SystemError (List Path) := do
  if ← t.query dir isDir then
    let found ← selectFrom t pattern.dirsOnly dir pattern.components
    return Path.sort found.eraseDups
  else return []

end Sysroot.Tree

import Sysroot.Error.Cause

/-!
# Reading library names

A list of names is written with commas or given one by one.  Blank entries count for
nothing, blanks around a name are no part of it, and a library that is named again keeps
its first place.
-/

namespace Sysroot.Library

/-- The library that a text names. -/
def read (text : String) : Except Cause Library :=
  match ofName? (Text.strip text) with
  | some l => .ok l
  | none => .error (.unknownLibrary text)

/-- The libraries that texts name, blank texts aside. -/
def readAll (texts : List String) : Except Cause (List Library) := do
  let libraries ← (texts.filter fun t => Text.strip t ≠ "").mapM read
  return firstOccurrences libraries

/-- The libraries that a text names between its commas. -/
def readList (text : String) : Except Cause (List Library) :=
  readAll (Text.split ',' text)

end Sysroot.Library

import Sysroot.Configure.Entry

/-!
# The arguments of a configure run

Entries are collected by name, and compiler and linker flags accumulate in string
entries, separated by single blanks.  The arguments come out with the generator first
and the entries in the order of their names, so that the same entries always give the
same command line.
-/

namespace Sysroot.Configure

/-- The arguments collected so far. -/
structure Arguments where
  /-- The entry of each name. -/
  entries : OrderedMap String Entry := .empty
  /-- The arguments before the entries. -/
  leading : List String := []

namespace Arguments

/-- Gives a name an entry. -/
def set (a : Arguments) (name : String) (e : Entry) : Arguments :=
  { a with entries := a.entries.insert name e }

/-- An entry with a text added after a blank; an entry that is absent, empty or no string
gives way to the text. -/
def extended (old : Option Entry) (value : String) : Entry :=
  match old with
  | some ⟨.string, before⟩ =>
      if before = "" then ⟨.string, value⟩ else ⟨.string, before ++ " " ++ value⟩
  | _ => ⟨.string, value⟩

/-- Adds a text to the string entry of a name; the empty text adds nothing. -/
def append (a : Arguments) (name value : String) : Arguments :=
  if value = "" then a else a.set name (extended (a.entries.find? name) value)

/-- Adds a flag for the C and the C++ compiler. -/
def compilerFlag (a : Arguments) (flag : String) : Arguments :=
  (a.append "CMAKE_C_FLAGS" flag).append "CMAKE_CXX_FLAGS" flag

/-- Adds a flag for linking shared libraries. -/
def sharedLinkerFlag (a : Arguments) (flag : String) : Arguments :=
  a.append "CMAKE_SHARED_LINKER_FLAGS" flag

/-- Adds a flag for linking programs. -/
def programLinkerFlag (a : Arguments) (flag : String) : Arguments :=
  a.append "CMAKE_EXE_LINKER_FLAGS" flag

/-- Names the generator. -/
def generator (a : Arguments) (name : String) : Arguments :=
  { a with leading := a.leading ++ ["-G", name] }

/-- The entries in the order of their names. -/
def sorted (a : Arguments) : List (String × Entry) :=
  a.entries.pairs.mergeSort fun p q => decide (p.1 ≤ q.1)

/-- The command line. -/
def toList (a : Arguments) : List String :=
  a.leading ++ a.sorted.map fun (name, e) => e.render name

end Arguments

end Sysroot.Configure

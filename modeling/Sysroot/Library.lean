import Sysroot.Text.Lines
import Sysroot.Text.Quoted
import Sysroot.Text.Blank

/-!
# The runtime libraries

The libraries a sysroot can hold, in the order in which every list of them is shown when
nothing else decides.
-/

namespace Sysroot

/-- A runtime library. -/
inductive Library where
  | compat
  | dlmalloc
  | compilerRt
  | libc
  | libunwind
  | libcxxabi
  | libcxx
  | zlib
deriving DecidableEq, Repr, Inhabited

namespace Library

/-- Every library, in the order of their declaration. -/
def all : List Library :=
  [compat, dlmalloc, compilerRt, libc, libunwind, libcxxabi, libcxx, zlib]

theorem mem_all (l : Library) : l ∈ all := by cases l <;> decide

/-- The name by which settings, manifests and reports know a library. -/
def name : Library → String
  | compat => "compat"
  | dlmalloc => "dlmalloc"
  | compilerRt => "compiler-rt"
  | libc => "libc"
  | libunwind => "libunwind"
  | libcxxabi => "libcxxabi"
  | libcxx => "libcxx"
  | zlib => "zlib"

/-- The library of a name. -/
def ofName? (s : String) : Option Library :=
  all.find? fun l => l.name = s

@[simp] theorem ofName?_name (l : Library) : ofName? l.name = some l := by
  cases l <;> rfl

/-- The known names, as messages list them. -/
def knownNames : String := Text.join ", " (all.map name)

/-- The position of a library in `all`. -/
def index (l : Library) : Nat := all.idxOf l

/-- The first occurrences of the members of a list. -/
def firstOccurrences (l : List Library) : List Library :=
  l.foldl (fun seen x => if seen.contains x then seen else seen ++ [x]) []

end Library

end Sysroot

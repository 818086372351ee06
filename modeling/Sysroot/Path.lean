import Sysroot.Text.Lines
import Sysroot.Text.Quoted

/-!
# Path texts

A path is what a user wrote, normalised as far as text alone allows: repeated slashes and
`.` components go, `..` stays, because what it means depends on links that only the file
tree knows.  Two leading slashes differ from one, three or more are one.

The order of paths is the order of their component lists, so `a/b` comes before `a-b`
although its text does not.
-/

namespace Sysroot

/-- Where a path starts. -/
inductive Path.Anchor where
  /-- At the working directory. -/
  | relative
  /-- At the root. -/
  | root
  /-- At the root, written with two slashes. -/
  | doubleRoot
deriving DecidableEq, Repr

/-- A normalised path text: no component is empty or `.`, and none holds a slash when it
comes from `Path.ofText`. -/
structure Path where
  /-- Where the path starts. -/
  anchor : Path.Anchor
  /-- The components from the start. -/
  parts : List String
deriving DecidableEq, Repr

namespace Path

instance : Inhabited Path := ⟨⟨.relative, []⟩⟩

/-- The text of a start. -/
def Anchor.text : Anchor → String
  | relative => ""
  | root => "/"
  | doubleRoot => "//"

/-- The start that a text announces: the number of its leading slashes, of which three or
more are one. -/
def Anchor.ofText (cs : List Char) : Anchor :=
  match (cs.takeWhile (· = '/')).length with
  | 0 => relative
  | 2 => doubleRoot
  | _ => root

/-- The components that a text names. -/
def partsOfText (cs : List Char) : List String :=
  ((Text.partsAt '/' cs).filter fun p => p ≠ [] ∧ p ≠ ['.']).map String.ofList

/-- The path of a text. -/
def ofText (s : String) : Path :=
  ⟨Anchor.ofText s.toList, partsOfText s.toList⟩

/-- The text of a path; the empty relative path is the working directory. -/
def text (p : Path) : String :=
  match p.anchor, p.parts with
  | .relative, [] => "."
  | a, parts => a.text ++ Text.join "/" parts

instance : ToString Path := ⟨text⟩

/-- Whether a path does not depend on the working directory. -/
def isAbsolute (p : Path) : Bool := p.anchor ≠ .relative

/-- A path below another; an absolute one stands for itself. -/
def append (p q : Path) : Path :=
  if q.isAbsolute then q else ⟨p.anchor, p.parts ++ q.parts⟩

instance : Append Path := ⟨append⟩

/-- A text below a path. -/
def join (p : Path) (s : String) : Path := p ++ ofText s

instance : HDiv Path String Path := ⟨join⟩

/-- The path without its last component. -/
def parent (p : Path) : Path := ⟨p.anchor, p.parts.dropLast⟩

/-- The last component, empty when there is none. -/
def name (p : Path) : String := p.parts.getLast?.getD ""

/-- Where the last dot of a name splits it: a dot at either end of the name does not. -/
def splitSuffix (name : List Char) : List Char × List Char :=
  let tail := name.reverse.takeWhile (· ≠ '.') |>.reverse
  let head := name.take (name.length - tail.length - 1)
  if tail.length < name.length ∧ head ≠ [] ∧ tail ≠ [] then (head, '.' :: tail) else (name, [])

/-- The last component without its suffix. -/
def stem (p : Path) : String := String.ofList (splitSuffix p.name.toList).1

/-- The suffix of the last component, its dot included. -/
def suffix (p : Path) : String := String.ofList (splitSuffix p.name.toList).2

/-- The components of a path in the order that compares paths: a start is a component. -/
def sortKey (p : Path) : List String :=
  if p.isAbsolute then p.anchor.text :: p.parts else p.parts

/-- Whether components are not after others: the first difference decides, and what is
shorter comes first. -/
def partsLe : List String → List String → Bool
  | [], _ => true
  | _ :: _, [] => false
  | a :: r, b :: s => if a = b then partsLe r s else decide (a ≤ b)

/-- Whether a path is not after another. -/
def le (p q : Path) : Bool := partsLe p.sortKey q.sortKey

/-- Paths in order. -/
def sort (l : List Path) : List Path := l.mergeSort le

/-- What is left of a path below a directory above it. -/
def below? (p dir : Path) : Option Path :=
  if p.anchor = dir.anchor ∧ dir.parts.isPrefixOf p.parts then
    some ⟨.relative, p.parts.drop dir.parts.length⟩
  else none

end Path

end Sysroot

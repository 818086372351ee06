import Sysroot.Error.System
import Sysroot.Path
import Sysroot.Tree.Basic

/-!
# From path texts to locations

A path leads to a location one component at a time.  A component that is a symbolic link
is replaced by the components of its target, `..` leads to the directory that physically
holds the place reached, and at most forty links are followed.

The last component need not exist: operations that create something start from the
location where it will be.  Some operations concern a link itself and not its target;
they do not follow the last component.

A name has at most 255 bytes and a path text at most 4095.
-/

namespace Sysroot.Tree

/-- How many links a path may lead through. -/
def linkBudget : Nat := 40

/-- How many bytes a path text may have. -/
def textLimit : Nat := 4095

/-- What an operation is about when the last component of its path is a link. -/
inductive Aim where
  /-- The link. -/
  | itself
  /-- What it leads to. -/
  | target
  /-- A file, which is made where the link leads if there is nothing. -/
  | newFile
deriving DecidableEq

/-- Whether the last component that a path text writes out is a dot. -/
def endsInDot (text : String) : Bool :=
  match text.toList.reverse.dropWhile (· = '/') with
  | ['.'] => true
  | c :: d :: _ => c = '.' && d = '/'
  | _ => false

/-- The components of a path text, such as the target of a link.  A text that ends in a slash
or a dot must be a directory: a last component `.` or, after a slash, an empty one checks
that. -/
def textNames (text : String) : List String :=
  let names := (Path.ofText text).parts
  if endsInDot text then names ++ ["."]
  else if text.endsWith "/" then names ++ [""]
  else names

/-- How far components lead without following a link. -/
inductive Stretch where
  /-- To a location, which may be free if only its last component is. -/
  | arrived (l : Location)
  | refused (reason : Errno)
  /-- To a link, after which the components lead on from a location. -/
  | link (here : Location) (names : List String)

/-- Where components lead from a location up to the first link.  No file is made at a name with
a slash after it. -/
def stretch (t : Tree) (aim : Aim) (here : Location) : List String → Stretch
  | [] => .arrived here
  | name :: rest =>
      match t.get? here with
      | none => .refused .noEntry
      | some .dir =>
          if name = "." ∨ name = "" then stretch t aim here rest
          else if name = ".." then stretch t aim here.dropLast rest
          else if aim = .newFile ∧ rest = [""] then .refused .isDirectory
          else if nameLimit < name.utf8ByteSize then .refused .nameTooLong
          else
            match t.get? (here ++ [name]) with
            | none => if rest = [] then .arrived (here ++ [name]) else .refused .noEntry
            | some (.link target) =>
                if rest = [] ∧ aim = .itself then .arrived (here ++ [name])
                else .link (if (Path.ofText target).isAbsolute then [] else here)
                  (textNames target ++ rest)
            | some _ => stretch t aim (here ++ [name]) rest
      | some _ => .refused .notDirectory

/-- Where components lead from a location, through at most `budget` links. -/
def locateFrom (t : Tree) (aim : Aim) :
    Nat → Location → List String → Except Errno Location
  | budget, here, names =>
      match stretch t aim here names, budget with
      | .arrived l, _ => .ok l
      | .refused reason, _ => .error reason
      | .link .., 0 => .error .loop
      | .link here names, budget + 1 => locateFrom t aim budget here names

/-- Where the components of a path start: at the root or in the working directory. -/
def startOf (t : Tree) (p : Path) : Location := if p.isAbsolute then [] else t.home

/-- The location of a path. -/
def locate (t : Tree) (p : Path) (aim : Aim := .target) : Except Errno Location :=
  if textLimit < p.text.utf8ByteSize then .error .nameTooLong
  else locateFrom t aim linkBudget (t.startOf p) p.parts

/-- The location of a path text, taken literally where a path forgets a final slash. -/
def locateText (t : Tree) (text : String) : Except Errno Location :=
  if text = "" then .error .noEntry
  else if textLimit < text.utf8ByteSize then .error .nameTooLong
  else locateFrom t .target linkBudget (t.startOf (Path.ofText text)) (textNames text)

/-- The node that a path leads to, links followed. -/
def node? (t : Tree) (p : Path) : Option Node :=
  match t.locate p with
  | .ok l => t.get? l
  | .error _ => none

/-- The node at a path, which may be a link. -/
def nodeItself? (t : Tree) (p : Path) : Option Node :=
  match t.locate p .itself with
  | .ok l => t.get? l
  | .error _ => none

/-- Whether a path leads to something. -/
def holds (t : Tree) (p : Path) : Bool := (t.node? p).isSome

/-- Whether a path leads to a directory. -/
def isDir (t : Tree) (p : Path) : Bool := t.node? p = some .dir

/-- Whether a path leads to a file. -/
def isFile (t : Tree) (p : Path) : Bool :=
  match t.node? p with
  | some (.file ..) => true
  | _ => false

/-- Whether a path leads to a file that may be run. -/
def isProgram (t : Tree) (p : Path) : Bool :=
  match t.node? p with
  | some (.file _ executable) => executable
  | _ => false

/-- Whether there is a link at a path. -/
def isLink (t : Tree) (p : Path) : Bool :=
  match t.nodeItself? p with
  | some (.link _) => true
  | _ => false

/-- Whether there is anything at a path, if only a link that leads nowhere. -/
def occupies (t : Tree) (p : Path) : Bool := t.holds p || t.isLink p

/-- The names in the directory that a path leads to, in order. -/
def list (t : Tree) (p : Path) : List String :=
  match t.locate p with
  | .ok l => if t.get? l = some .dir then t.children l else []
  | .error _ => []

end Sysroot.Tree

import Sysroot.Error.Cause
import Sysroot.Tree.Resolve

/-!
# Actions on a file tree

The single operations either succeed or are refused and then change nothing.  Actions are
made of them: an action that fails keeps what it changed before, and whoever starts an
action decides what to do about a failure.
-/

namespace Sysroot

namespace Tree

/-! ## Single operations -/

/-- Whether a text has a NUL in it. -/
def hasNull (s : String) : Bool := '\x00' ∈ s.toList

/-- The location of a path, a failure being described by `refused`. -/
def placeOr (t : Tree) (p : Path) (aim : Aim) (refused : Errno → SystemError) :
    Except SystemError Location :=
  if hasNull p.text then .error .nullCharacter else (t.locate p aim).mapError refused

/-- The location of a path, a failure naming the path. -/
def place (t : Tree) (p : Path) (aim : Aim := .target) : Except SystemError Location :=
  t.placeOr p aim fun reason => .refused reason p.text

/-- Asks about a path.  A path with a NUL leads nowhere; one with a name that is too long
cannot be asked about. -/
def query (t : Tree) (p : Path) (answer : Tree → Path → Bool) : Except SystemError Bool :=
  match t.locate p with
  | .error .nameTooLong =>
      if hasNull p.text then .ok false else .error (.refused .nameTooLong p.text)
  | _ => .ok (answer t p)

/-- Makes a directory. -/
def makeDir (t : Tree) (p : Path) : Except SystemError Tree := do
  let l ← t.place p .itself
  if (t.get? l).isSome then throw (.refused .alreadyExists p.text)
  return t.set l .dir

/-- The content of a file. -/
def contentOf (t : Tree) (p : Path) : Except SystemError (List UInt8) := do
  let l ← t.place p
  match t.get? l with
  | some (.file content _) => return content
  | some .dir => throw (.refused .isDirectory p.text)
  | _ => throw (.refused .noEntry p.text)

/-- Writes a file, creating it if it is not there.  A file that is there keeps its
permission to be run. -/
def writeFile (t : Tree) (p : Path) (content : List UInt8) : Except SystemError Tree := do
  let l ← t.place p .newFile
  match t.get? l with
  | some .dir => throw (.refused .isDirectory p.text)
  | some (.file _ executable) => return t.set l (.file content executable)
  | _ => return t.set l (.file content false)

/-- Sets whether a file may be run. -/
def permit (t : Tree) (p : Path) (executable : Bool) : Except SystemError Tree := do
  let l ← t.place p
  match t.get? l with
  | some (.file content _) => return t.set l (.file content executable)
  | some _ => return t
  | none => throw (.refused .noEntry p.text)

/-- Makes a symbolic link at a path. -/
def makeLink (t : Tree) (target : String) (p : Path) : Except SystemError Tree := do
  let refused := fun reason => SystemError.refusedPair reason target p.text
  if hasNull target || hasNull p.text then throw .nullCharacter
  if target = "" then throw (refused .noEntry)
  if textLimit < target.utf8ByteSize then throw (refused .nameTooLong)
  let l ← t.placeOr p .itself refused
  if (t.get? l).isSome then throw (refused .alreadyExists)
  return t.set l (.link target)

/-- Removes a file or a link. -/
def unlink (t : Tree) (p : Path) : Except SystemError Tree := do
  let l ← t.place p .itself
  match t.get? l with
  | none => throw (.refused .noEntry p.text)
  | some .dir => throw (.refused .isDirectory p.text)
  | some _ => return t.remove l

/-- Whether the last component of a path is a name. -/
def endsInName (p : Path) : Bool := p.parts ≠ [] && p.name ≠ ".."

/-- Brings what is at one path to another, in place of what was there.  A directory takes the
place of an empty directory only, anything else the place of anything but a directory. -/
def rename (t : Tree) (source target : Path) : Except SystemError Tree := do
  let refused := fun reason => SystemError.refusedPair reason source.text target.text
  if hasNull target.text then throw .nullCharacter
  let s ← t.placeOr source .itself refused
  let d ← t.placeOr target .itself refused
  if !endsInName source || !endsInName target then throw (refused .busy)
  match t.get? s with
  | none => throw (refused .noEntry)
  | some node =>
      if s = d then return t
      if covers s d then throw (refused .invalid)
      if covers d s then throw (refused .notEmpty)
      match t.get? d with
      | none => pure ()
      | some .dir =>
          if node ≠ .dir then throw (refused .isDirectory)
          if !t.isBare d then throw (refused .notEmpty)
      | some _ => if node = .dir then throw (refused .notDirectory)
      return t.move s d

/-- Whether two paths lead to the same thing. -/
def sameNode (t : Tree) (p q : Path) : Bool :=
  match t.locate p, t.locate q with
  | .ok l, .ok m => l = m && (t.get? l).isSome
  | _, _ => false

/-- Copies a file with its permission to be run.  A directory as target stands for the file
of the same name in it. -/
def copyFile (t : Tree) (source target : Path) : Except SystemError Tree := do
  let placed := t.isDir target
  let target := if placed then target / source.name else target
  if hasNull source.text || hasNull target.text then throw .nullCharacter
  if t.sameNode source target then throw (.sameFile source.text target.text placed)
  let content ← t.contentOf source
  let t' ← t.writeFile target content
  t'.permit target (t.isProgram source)

/-- Removes a directory with everything in it. -/
def removeTree (t : Tree) (p : Path) : Except SystemError Tree := do
  let l ← t.place p .itself
  match t.get? l with
  | none => throw (.refused .noEntry p.text)
  | some (.file ..) => throw (.removeFile p.text)
  | some (.link _) =>
      if (t.get? (← t.place p)).isSome then throw .removeLink
      else throw (.refused .noEntry p.text)
  | some .dir => return t.remove l

/-! ## Actions -/

/-- What changes a file tree and may fail. -/
abbrev Action (α : Type) := ExceptT Fault (StateM Tree) α

namespace Action

/-- A single operation as an action. -/
def apply (f : Tree → Except SystemError Tree) : Action Unit := do
  match f (← get) with
  | .ok t => modify fun _ => t
  | .error e => throw (.ofRefusal e)

/-- A question to the tree that may be refused. -/
def ask {α : Type} (f : Tree → Except SystemError α) : Action α := do
  match f (← get) with
  | .ok a => return a
  | .error e => throw (.ofRefusal e)

/-- A question to the tree. -/
def see {α : Type} (f : Tree → α) : Action α := return f (← get)

/-- Fails with a cause. -/
def fail {α : Type} (cause : Cause) : Action α := throw (.caused cause)

/-- A computation that may fail with a cause. -/
def ofExcept {α : Type} : Except Fault α → Action α
  | .ok a => return a
  | .error fault => throw fault

/-- Deals with a refusal of the file system; any other failure passes. -/
def onRefusal {α : Type} (x : Action α) (handle : SystemError → Action α) : Action α :=
  tryCatch x fun
    | .system e => handle e
    | fault => throw fault

/-- Makes a directory; one that is there already will do. -/
def ensureDir (p : Path) : Action Unit :=
  onRefusal (apply (makeDir · p)) fun e => do
    if e.reason? = some .noEntry then throw (.system e)
    if !(← ask (query · p isDir)) then throw (.system e)

/-- Makes the directory of reversed components and those it is in. -/
def ensureDirsUp (anchor : Path.Anchor) : List String → Action Unit
  | [] => ensureDir ⟨anchor, []⟩
  | name :: up =>
      let p : Path := ⟨anchor, (name :: up).reverse⟩
      onRefusal (ensureDir p) fun e => do
        if e.reason? ≠ some .noEntry then throw (.system e)
        ensureDirsUp anchor up
        ensureDir p

/-- Makes a directory and those it is in; those that are there already will do. -/
def ensureDirs (p : Path) : Action Unit := ensureDirsUp p.anchor p.parts.reverse

/-- The text of a file, its line ends unified. -/
def readText (p : Path) : Action String := do
  let content ← ask (contentOf · p)
  match Text.Utf8.decode? content with
  | some cs => return String.ofList (Text.unifyLineEnds cs)
  | none => throw .notText

/-- Writes a text to a file. -/
def writeText (p : Path) (s : String) : Action Unit :=
  apply (writeFile · p (Text.Utf8.bytesOf s))

/-- A name that is free in a directory: the stem and a number of eight digits. -/
def freeName (t : Tree) (dir : Path) (stem : String) : String :=
  let taken := t.list dir
  let candidate := fun n => stem ++ String.ofList (Text.hexOfWidth 8 n)
  ((List.range (taken.length + 1)).map candidate).find? (· ∉ taken) |>.getD (candidate 0)

/-- Makes a new directory in a directory and gives its path. -/
def makeFreshDir (dir : Path) (stem : String) : Action Path := do
  let p := dir / freeName (← get) dir stem
  apply (makeDir · p)
  return p

end Action

end Tree

end Sysroot

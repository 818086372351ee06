import Sysroot.Install.Manifest

/-!
# Installing as one transaction

An installation maps sysroot paths to source files and copies them all or none.  Before
anything is touched, no path may belong to another library.  What is in the way of a file
is set aside in a directory made for the occasion; when a later step is refused, the new
files go and what was set aside returns.

The steps record what they did in an `Undo` as they do it, so that a refusal at any point
finds the record of everything before it.
-/

namespace Sysroot.Install

open Sysroot.Tree (Action)

/-- What it takes to undo the copies made so far. -/
structure Undo where
  /-- Places that were free, in the order in which they were filled. -/
  created : List Path := []
  /-- Places that were taken, each with where its former content is, in the same order. -/
  saved : List (Path × Path) := []

/-- Records a place, with where its former content is if it had one. -/
def Undo.record (u : Undo) (place : Path) : Option Path → Undo
  | some kept => { u with saved := u.saved ++ [(place, kept)] }
  | none => { u with created := u.created ++ [place] }

/-- Sets aside what is at a place, and tells where it is kept. -/
def setAside (place kept : Path) : Action (Option Path) := do
  if !(← Action.ask (Tree.query · place Tree.occupies)) then return none
  Action.ensureDirs kept.parent
  Action.apply (Tree.rename · place kept)
  return some kept

/-- Copies a source to a free place.  A link is copied as a link. -/
def copyTo (source place : Path) : Action Unit := do
  Action.ensureDirs place.parent
  match ← Action.see (Tree.nodeItself? · source) with
  | some (.link target) => Action.apply (Tree.makeLink · target place)
  | _ => Action.apply (Tree.copyFile · source place)

/-- Copies sources to their places one after another, recording what was done. -/
def copyEach (root aside : Path) :
    List (String × Path) → Undo → Tree → Except Fault Unit × Undo × Tree
  | [], u, t => (.ok (), u, t)
  | (relative, source) :: rest, u, t =>
      let place := root / relative
      match setAside place (aside / relative) t with
      | (.error fault, t) => (.error fault, u, t)
      | (.ok kept, t) =>
          match copyTo source place t with
          | (.error fault, t) => (.error fault, u.record place kept, t)
          | (.ok (), t) => copyEach root aside rest (u.record place kept) t

/-- Removes the files from places that were free. -/
def clearCreated : List Path → Action Unit
  | [] => return
  | place :: rest => do
      if ← Action.ask (Tree.query · place Tree.occupies) then Action.apply (Tree.unlink · place)
      clearCreated rest

/-- Brings back what was set aside. -/
def restoreSaved : List (Path × Path) → Action Unit
  | [] => return
  | (place, kept) :: rest => do
      if ← Action.ask (Tree.query · place Tree.occupies) then Action.apply (Tree.unlink · place)
      Action.apply (Tree.rename · kept place)
      restoreSaved rest

/-- Undoes the copies that were recorded. -/
def Undo.run (u : Undo) : Action Unit := do
  clearCreated u.created
  restoreSaved u.saved

/-- Makes the directories of the sysroot and a directory for what is set aside. -/
def openAside (root : Path) (l : Library) : Action Path := do
  create root
  Action.makeFreshDir (manifestDir root) (l.name ++ "-")

/-- Adds paths to the manifest of a library. -/
def recordFiles (root : Path) (l : Library) (files : List String) : Action Unit := do
  let before ← readManifest root l
  let _ ← writeManifest root l (before ++ files)

/-- The sources of an installation in the order of their sysroot paths. -/
def inOrder (mapping : OrderedMap String Path) : List (String × Path) :=
  mapping.pairs.mergeSort fun a b => decide (a.1 ≤ b.1)

/-- Removes a directory if that is possible. -/
def dropDir (p : Path) (t : Tree) : Tree :=
  match t.removeTree p with
  | .ok t => t
  | .error _ => t

/-- Turns a refusal into the failure of an installation, after undoing it. -/
def failInstall {α : Type} (root : Path) (l : Library) (u : Undo) (e : SystemError) :
    Action α := do
  u.run
  Action.fail (.installFailed l root.text e)

/-- Copies the sources of an installation and records them, or leaves everything as it
was. -/
def transact (root : Path) (l : Library) (mapping : OrderedMap String Path) :
    Action (List Path) := fun t =>
  match openAside root l t with
  | (.error (.system e), t) => failInstall root l {} e t
  | (.error fault, t) => (.error fault, t)
  | (.ok aside, t) =>
      let (result, u, t) := copyEach root aside (inOrder mapping) {} t
      let (result, t) := match result with
        | .ok () => recordFiles root l mapping.keys t
        | .error fault => (.error fault, t)
      let (result, t) := match result with
        | .error (.system e) => failInstall root l u e t
        | other => (other, t)
      (result.map fun () => (inOrder mapping).map fun (relative, _) => root / relative,
        dropDir aside t)

/-- The paths of an installation that belong to another library, in order. -/
def collisions (owned : OrderedMap String Library) (l : Library)
    (mapping : OrderedMap String Path) : List String :=
  (mapping.keys.filter fun k => (owned.find? k).any (· ≠ l)).mergeSort fun a b => decide (a ≤ b)

/-- Installs a mapping of sysroot paths to sources. -/
def installMapping (root : Path) (l : Library) (mapping : OrderedMap String Path) :
    Action (List Path) := do
  let owned ← owners root
  match collisions owned l mapping with
  | [] => transact root l mapping
  | first :: rest =>
      Action.fail (.ownedByOther l (first :: rest) ((owned.find? first).getD l))

/-! ## What is installed -/

/-- The mapping that puts files below a directory at the same places below a sysroot path. -/
def placedUnder (base dir : Path) (sources : List Path) : List (String × Path) :=
  sources.map fun source => ((base ++ (source.below? dir).getD source).text, source)

/-- The mapping of a header directory. -/
def headerMapping (l : Library) (headersDir : Path) (place : String) :
    Action (List (String × Path)) := do
  if !(← Action.ask (Tree.query · headersDir Tree.isDir)) then
    Action.fail (.headersNotThere l headersDir.text)
  let sources ← Action.ask (Tree.walk · headersDir)
  return placedUnder (Path.ofText "include" / place) headersDir sources

/-- The sections of a stage that are installed. -/
def standardSections : List String := ["include", "lib"]

/-- What an installation is made from. -/
structure Source where
  /-- The directory with a directory for each section. -/
  stage : Path
  sections : List String := standardSections
  /-- Paths that must be there before anything is copied. -/
  expected : List Path := []
  /-- A directory of headers to install besides, with its place below `include`. -/
  headers : Option (Path × String) := none

/-- Installs the files of a stage and, if given, of a header directory; a staged file has
precedence over a header for the same place. -/
def install (root : Path) (l : Library) (s : Source) : Action (List Path) := do
  let absent ← s.expected.filterM fun p => not <$> Action.ask (Tree.query · p Tree.occupies)
  let missing := absent.map Path.text
  if missing ≠ [] then
    Action.fail (.stagedMissing l (missing.mergeSort fun a b => decide (a ≤ b)))
  let headers ← match s.headers with
    | some (dir, place) => headerMapping l dir place
    | none => pure []
  let staged ← s.sections.mapM fun name => do
    if ← Action.ask (Tree.query · (s.stage / name) Tree.isDir) then
      let sources ← Action.ask (Tree.walk · (s.stage / name))
      return placedUnder (Path.ofText name) (s.stage / name) sources
    else return []
  installMapping root l (.ofList (headers ++ staged.flatten))

/-- Installs a directory of headers at a place below `include`. -/
def installHeaders (root : Path) (l : Library) (headersDir : Path) (place : String) :
    Action (List Path) := do
  installMapping root l (.ofList (← headerMapping l headersDir place))

/-- The archives among installed files. -/
def archives (files : List Path) : List Path := files.filter fun p => p.suffix = ".a"

end Sysroot.Install

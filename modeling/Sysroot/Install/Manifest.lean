import Sysroot.Json.Reader
import Sysroot.Json.Writer
import Sysroot.Library.Reading
import Sysroot.Tree.Select

/-!
# Who owns what in a sysroot

A sysroot has its headers below `include`, its archives below `lib`, and below
`.manifests` one file for each library, which lists the paths that the library installed.
The lists are sets: their order and repetitions mean nothing, and they are written sorted.
-/

namespace Sysroot.Install

open Sysroot.Tree (Action)

/-! ## Places -/

/-- The directory of the headers. -/
def includeDir (root : Path) : Path := root / "include"

/-- The directory of the archives. -/
def libDir (root : Path) : Path := root / "lib"

/-- The directory of the manifests. -/
def manifestDir (root : Path) : Path := root / ".manifests"

/-- The manifest of a library. -/
def manifestPath (root : Path) (l : Library) : Path := manifestDir root / (l.name ++ ".json")

/-- Whether a header is installed. -/
def hasHeader (t : Tree) (root : Path) (header : String) : Except SystemError Bool :=
  t.query (includeDir root / header) Tree.isFile

/-- Whether an archive is installed. -/
def hasArchive (t : Tree) (root : Path) (archive : String) : Except SystemError Bool :=
  t.query (libDir root / archive) Tree.isFile

/-- Makes the directories of a sysroot. -/
def create (root : Path) : Action Unit := do
  Action.ensureDirs (includeDir root)
  Action.ensureDirs (libDir root)
  Action.ensureDirs (manifestDir root)

/-! ## Manifests -/

/-- The texts of a set, each once and in order. -/
def sortedSet (l : List String) : List String :=
  l.eraseDups.mergeSort fun a b => decide (a ≤ b)

/-- The paths that a manifest lists, if it is one. -/
def manifestFiles? (v : Json) : Option (List String) :=
  match v.field? "files" with
  | some (.arr items) => items.mapM fun
      | .str s => some s
      | _ => none
  | _ => none

/-- The paths that a library installed.  A library without a manifest installed nothing. -/
def readManifest (root : Path) (l : Library) : Action (List String) := do
  let p := manifestPath root l
  if !(← Action.ask (Tree.query · p Tree.holds)) then return []
  match Json.read (← Action.readText p) with
  | .error .longNumber => throw .longNumber
  | .error .tooDeep => throw .tooDeep
  | .error (.malformed ..) => Action.fail (.manifestNotJson l p.text)
  | .ok v =>
      match manifestFiles? v with
      | some files => return sortedSet files
      | none => Action.fail (.manifestFilesInvalid l p.text)

/-- A manifest as a JSON value. -/
def manifestJson (l : Library) (files : List String) : Json :=
  .obj [("library", .str l.name), ("files", .ofTexts (sortedSet files))]

/-- Writes the manifest of a library and gives its path. -/
def writeManifest (root : Path) (l : Library) (files : List String) : Action Path := do
  let p := manifestPath root l
  Action.ensureDirs p.parent
  Action.writeText p ((manifestJson l files).indentedText ++ "\n")
  return p

/-- The manifests of a sysroot, in order. -/
def manifests (t : Tree) (root : Path) : Except SystemError (List Path) :=
  t.select (manifestDir root) ⟨[.wild "*.json"], false⟩

/-- Adds the paths of the manifests to those whose owner is known. -/
def ownersFrom (root : Path) (owned : OrderedMap String Library) :
    List Path → Action (OrderedMap String Library)
  | [] => return owned
  | p :: rest => do
      let l ← Action.ofExcept ((Library.read p.stem).mapError .caused)
      let files ← readManifest root l
      ownersFrom root (owned.insertAll (files.map fun f => (f, l))) rest

/-- The owner of each path that a manifest lists; of several manifests the last one
counts. -/
def owners (root : Path) : Action (OrderedMap String Library) := do
  ownersFrom root .empty (← Action.ask (manifests · root))

end Sysroot.Install

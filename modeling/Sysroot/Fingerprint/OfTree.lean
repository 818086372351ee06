import Sysroot.Fingerprint.Basic
import Sysroot.Install.Transaction

/-!
# The fingerprint of an installed sysroot

Every file below `include` and `lib` is listed by its path below the sysroot, a link to a
file with the content it leads to.
-/

namespace Sysroot.Fingerprint

/-- The files of a section with their digests, in order. -/
def ofSection (t : Tree) (root : Path) (name : String) :
    Except SystemError (List (String × String)) := do
  let found ← t.select (root / name) ⟨[.descend, .wild "*"], false⟩
  (← found.filterM (t.query · Tree.isFile)).mapM fun p => do
    return (((p.below? root).getD p).text, Sha256.hexDigest (← t.contentOf p))

/-- The fingerprint of a sysroot. -/
def ofTree (t : Tree) (root : Path) (target : String) : Except SystemError Fingerprint := do
  let files ← Install.standardSections.mapM (ofSection t root)
  return { target := target, values := .ofList files.flatten }

end Sysroot.Fingerprint

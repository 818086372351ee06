import Sysroot.Fingerprint.Basic
import Sysroot.Tree.Action

/-!
# Exported fingerprints

A fingerprint is exported to a file as JSON, for people, or as CBOR, for comparing builds
byte by byte.  The directory of the file must be there.
-/

namespace Sysroot.Fingerprint

/-- Writes the JSON export to a file. -/
def writeJson (f : Fingerprint) (p : Path) : Tree.Action Unit :=
  Tree.Action.writeText p f.jsonText

/-- Writes the CBOR export to a file. -/
def writeCbor (f : Fingerprint) (p : Path) : Tree.Action Unit :=
  Tree.Action.apply (Tree.writeFile · p f.cborBytes)

end Sysroot.Fingerprint

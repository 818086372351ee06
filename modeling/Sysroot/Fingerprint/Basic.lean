import Sysroot.Fingerprint.Cbor
import Sysroot.Json.Writer
import Sysroot.OrderedMap

/-!
# Fingerprints of a sysroot

A fingerprint gives every file of a sysroot the digest of its content.  Two builds with
the same fingerprint installed the same files; a comparison lists where they differ.
Exports hold the same content in the same order whatever the order of the map.
-/

namespace Sysroot

/-- The digests of a sysroot's files, by path. -/
structure Fingerprint where
  target : String
  values : OrderedMap String String := .empty
  schemaVersion : Int := 1

namespace Fingerprint

/-- The pairs of a map in the order of their keys. -/
def inOrder {α : Type} (m : OrderedMap String α) : List (String × α) :=
  m.pairs.mergeSort fun p q => decide (p.1 ≤ q.1)

/-- The recorded paths below a section, in order. -/
def paths (f : Fingerprint) (section_ : String) : List String :=
  (f.values.keys.filter fun p => (section_ ++ "/").toList.isPrefixOf p.toList).mergeSort
    fun a b => decide (a ≤ b)

/-- A fingerprint as a JSON value. -/
def toJson (f : Fingerprint) : Json :=
  .obj [("schema_version", .int f.schemaVersion), ("target", .str f.target),
    ("values", .obj ((inOrder f.values).map fun (k, v) => (k, .str v)))]

/-- The JSON export. -/
def jsonText (f : Fingerprint) : String := f.toJson.indentedText ++ "\n"

/-- A fingerprint as a CBOR value. -/
def toCbor (f : Fingerprint) : Cbor :=
  .map [("schema_version", .int f.schemaVersion), ("target", .text f.target),
    ("values", .map ((inOrder f.values).map fun (k, v) => (k, .text v)))]

/-- The CBOR export. -/
def cborBytes (f : Fingerprint) : List UInt8 := f.toCbor.encode

/-! ## Comparison -/

/-- How a path differs from what was expected. -/
inductive Mismatch where
  /-- The path is expected and absent. -/
  | missing (path expected : String)
  /-- The path has another digest. -/
  | changed (path expected actual : String)
  /-- The path is there and not expected. -/
  | unexpected (path actual : String)
deriving DecidableEq, Repr

namespace Mismatch

/-- The path that differs. -/
def path : Mismatch → String
  | missing p _ | changed p _ _ | unexpected p _ => p

/-- The name of the difference in reports. -/
def reason : Mismatch → String
  | missing .. => "missing_actual"
  | changed .. => "value_mismatch"
  | unexpected .. => "unexpected_actual"

/-- The expected digest. -/
def expected? : Mismatch → Option String
  | missing _ e | changed _ e _ => some e
  | unexpected .. => none

/-- The digest found. -/
def actual? : Mismatch → Option String
  | missing .. => none
  | changed _ _ a | unexpected _ a => some a

/-- What to do about the difference. -/
def hint : Mismatch → String
  | missing .. => "The sysroot is missing this file; rebuild its library."
  | changed .. => "Rebuild with the same sources, flags and toolchain and compare again."
  | unexpected .. => "Expected set does not include this installed file."

end Mismatch

/-- Where the digests differ from those expected: first the expected paths in order, then
the others. -/
def compare (f : Fingerprint) (expected : OrderedMap String String) : List Mismatch :=
  (inOrder expected).filterMap (fun (path, e) =>
    match f.values.find? path with
    | none => some (.missing path e)
    | some a => if a = e then none else some (.changed path e a)) ++
  (inOrder f.values).filterMap fun (path, a) =>
    if expected.contains path then none else some (.unexpected path a)

end Fingerprint

end Sysroot

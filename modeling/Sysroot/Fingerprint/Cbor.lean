import Sysroot.Fingerprint.Sha256
import Sysroot.Text.Utf8

/-!
# Canonical CBOR

A binary form of whole numbers, texts and maps in which every value has exactly one
encoding: numbers and lengths use the shortest head, numbers beyond sixty-four bits are
tagged byte strings without leading zeros, and the keys of a map are ordered by the
length of their encoding and then by its bytes.
-/

namespace Sysroot.Fingerprint

/-- The values that are encoded. -/
inductive Cbor where
  | int (n : Int)
  | text (s : String)
  | map (fields : List (String × Cbor))
deriving Repr, Inhabited

namespace Cbor

/-- The head of an item: its major type and an argument of at most sixty-four bits, as short
as possible. -/
def head (major n : Nat) : List UInt8 :=
  let first := fun low => UInt8.ofNat (major * 32 + low)
  if n < 24 then [first n]
  else if n < 0x100 then first 24 :: Sha256.bigEndian 1 n
  else if n < 0x10000 then first 25 :: Sha256.bigEndian 2 n
  else if n < 0x100000000 then first 26 :: Sha256.bigEndian 4 n
  else first 27 :: Sha256.bigEndian 8 n

/-- How many bytes a number takes. -/
def byteLength (n : Nat) : Nat := if h : n = 0 then 0 else byteLength (n / 256) + 1
termination_by n
decreasing_by omega

/-- A number with the major type of its sign, or beyond sixty-four bits its tag. -/
def encodeMagnitude (major tag n : Nat) : List UInt8 :=
  if n < 0x10000000000000000 then head major n
  else head 6 tag ++ head 2 (byteLength n) ++ Sha256.bigEndian (byteLength n) n

/-- A whole number. -/
def encodeInt : Int → List UInt8
  | .ofNat n => encodeMagnitude 0 2 n
  | .negSucc n => encodeMagnitude 1 3 n

/-- A text. -/
def encodeText (s : String) : List UInt8 :=
  let bytes := Text.Utf8.bytesOf s
  head 3 bytes.length ++ bytes

/-- Whether an encoded key does not come after another. -/
def keyLe (a b : List UInt8) : Bool :=
  a.length < b.length || (a.length = b.length && decide (a ≤ b))

mutual

/-- The canonical encoding of a value. -/
def encode : Cbor → List UInt8
  | int n => encodeInt n
  | text s => encodeText s
  | map fields =>
      head 5 fields.length ++
        ((encodeFields fields).mergeSort fun f g => keyLe f.1 g.1).flatMap fun f => f.1 ++ f.2

/-- The encoded key and value of each field. -/
def encodeFields : List (String × Cbor) → List (List UInt8 × List UInt8)
  | [] => []
  | (k, v) :: r => (encodeText k, encode v) :: encodeFields r

end

end Cbor

end Sysroot.Fingerprint

import Sysroot.Fingerprint.Basic
import Sysroot.Proofs.Fingerprint.CborReader
import Sysroot.Proofs.Json.RoundTrip
import Sysroot.Proofs.KeyOrder

/-!
# What the exports of a fingerprint tell

Both exports are read back to the target, the schema version and the digest of every path
(`ofJsonText?_jsonText`, `ofCborBytes?_cborBytes`), and neither shows in which order the paths were
recorded.  So two fingerprints have the same export exactly when they have the same content
(`exports_faithful`).
-/

namespace Sysroot.Fingerprint

variable {f g : Fingerprint} {limit : Nat}

/-- Whether two fingerprints hold the same, in whatever order they hold it. -/
structure SameContent (f g : Fingerprint) : Prop where
  target : f.target = g.target
  schemaVersion : f.schemaVersion = g.schemaVersion
  values : ∀ path, f.values.find? path = g.values.find? path

theorem SameContent.symm (h : SameContent f g) : SameContent g f :=
  ⟨h.target.symm, h.schemaVersion.symm, fun path => (h.values path).symm⟩

theorem SameContent.trans {e : Fingerprint} (h : SameContent f g) (h' : SameContent g e) :
    SameContent f e :=
  ⟨h.target.trans h'.target, h.schemaVersion.trans h'.schemaVersion,
    fun path => (h.values path).trans (h'.values path)⟩

/-! ## Taking an export apart -/

/-- How the values of a format are taken apart. -/
structure Format (V : Type) where
  int? : V → Option Int
  text? : V → Option String
  map? : V → Option (List (String × V))

/-- The values of JSON. -/
def Format.json : Format Json where
  int? | .int n => some n
       | _ => none
  text? | .str s => some s
        | _ => none
  map? | .obj fields => some fields
       | _ => none

/-- The values of CBOR. -/
def Format.cbor : Format Cbor where
  int? | .int n => some n
       | _ => none
  text? | .text s => some s
        | _ => none
  map? | .map fields => some fields
       | _ => none

/-- Whether everything in a fingerprint has a length that fits into sixty-four bits, as it has in
the memory of every machine. -/
structure Addressable (f : Fingerprint) : Prop where
  schemaVersion : Cbor.byteLength f.schemaVersion.natAbs < 0x10000000000000000
  target : (Text.Utf8.bytesOf f.target).length < 0x10000000000000000
  size : f.values.size < 0x10000000000000000
  values : ∀ path digest, f.values.find? path = some digest →
    (Text.Utf8.bytesOf path).length < 0x10000000000000000 ∧
    (Text.Utf8.bytesOf digest).length < 0x10000000000000000

theorem Addressable.toCbor (h : f.Addressable) : Cbor.Addressable f.toCbor := by
  have hdigests : Cbor.Addressable (.map ((inOrder f.values).map fun p => (p.1, .text p.2))) := by
    have hfits : ∀ p ∈ inOrder f.values, (Text.Utf8.bytesOf p.1).length < 0x10000000000000000 ∧
        (Text.Utf8.bytesOf p.2).length < 0x10000000000000000 :=
      fun p hp => h.values p.1 p.2 (OrderedMap.mem_pairs_iff.1 (List.mem_mergeSort.1 hp))
    refine .map ?_ (List.forall_mem_map.2 fun p hp => (hfits p hp).1)
      (List.forall_mem_map.2 fun p hp => .text (hfits p hp).2)
    rw [List.length_map, inOrder, List.length_mergeSort]
    exact h.size
  have hnames : ∀ name ∈ ["schema_version", "target", "values"],
      (Text.Utf8.bytesOf name).length < 0x10000000000000000 := by decide
  refine .map (show 3 < _ by decide) (fun field hfield => hnames field.1 ?_) ?_
  · exact List.mem_map_of_mem (f := Prod.fst) hfield
  · simp only [List.forall_mem_cons, List.not_mem_nil, false_implies, implies_true, and_true]
    exact ⟨.int h.schemaVersion, .text h.target, hdigests⟩

end Sysroot.Fingerprint

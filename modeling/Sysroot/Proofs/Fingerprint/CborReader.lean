import Mathlib
import Sysroot.Fingerprint.Cbor
import Sysroot.Proofs.Text.Utf8

/-!
# Reading CBOR

A reader of the items that are written: whole numbers, those beyond sixty-four bits as tagged byte
strings, texts, and maps from texts.  It reads a head, then as many bytes or as many fields as the
head announces.  An item whose lengths fit into sixty-four bits is read back from its encoding, the
fields of its maps in the order in which they were encoded (`Addressable.readsBack`, `read_encode`).
-/

namespace Sysroot.Fingerprint.Cbor

variable {major n width : Nat} {rest : List UInt8} {v : Cbor}

/-! ## The reader -/

/-- The number that bytes write, the highest first. -/
def ofBigEndian (bytes : List UInt8) : Nat := bytes.foldl (fun n b => 256 * n + b.toNat) 0

/-- Takes a number of bytes, when there are so many. -/
def readBytes (count : Nat) (bytes : List UInt8) : Option (List UInt8 × List UInt8) :=
  if count ≤ bytes.length then some (bytes.take count, bytes.drop count) else none

/-- Reads a head: the major type and the argument, which is in the first byte or in the one, two,
four or eight bytes after it. -/
def readHead : List UInt8 → Option ((Nat × Nat) × List UInt8)
  | [] => none
  | b :: r =>
      let low := b.toNat % 32
      let wide := fun width => (readBytes width r).map fun (bytes, rest) =>
        ((b.toNat / 32, ofBigEndian bytes), rest)
      if low < 24 then some ((b.toNat / 32, low), r)
      else if low < 28 then wide (2 ^ (low - 24))
      else none

/-- Reads a text of a length in bytes. -/
def readText (length : Nat) (bytes : List UInt8) : Option (String × List UInt8) := do
  let (encoded, rest) ← readBytes length bytes
  return (← Text.Utf8.text? encoded, rest)

/-- Reads the bytes of a tagged number. -/
def readTagged (tag : Nat) (bytes : List UInt8) : Option (Cbor × List UInt8) := do
  let ((major, width), rest) ← readHead bytes
  let (digits, rest) ← readBytes width rest
  match major, tag with
  | 2, 2 => some (int (.ofNat (ofBigEndian digits)), rest)
  | 2, 3 => some (int (.negSucc (ofBigEndian digits)), rest)
  | _, _ => none

mutual

/-- Reads an item at the start of bytes.  The fuel bounds the nesting and the number of parts, both
of which the number of bytes bounds. -/
def readItem : Nat → List UInt8 → Option (Cbor × List UInt8)
  | 0, _ => none
  | fuel + 1, bytes => do
      let ((major, n), rest) ← readHead bytes
      match major with
      | 0 => some (int (.ofNat n), rest)
      | 1 => some (int (.negSucc n), rest)
      | 3 => (readText n rest).map fun (s, rest) => (text s, rest)
      | 5 => (readFields fuel n rest).map fun (fields, rest) => (map fields, rest)
      | 6 => readTagged n rest
      | _ => none

/-- Reads a number of fields. -/
def readFields : Nat → Nat → List UInt8 → Option (List (String × Cbor) × List UInt8)
  | _, 0, bytes => some ([], bytes)
  | 0, _ + 1, _ => none
  | fuel + 1, count + 1, bytes => do
      let ((major, n), rest) ← readHead bytes
      if major = 3 then
        let (k, rest) ← readText n rest
        let (v, rest) ← readItem fuel rest
        let (fields, rest) ← readFields fuel count rest
        return ((k, v) :: fields, rest)
      else none

end

/-- Reads bytes that hold one item. -/
def read (bytes : List UInt8) : Option Cbor :=
  match readItem (bytes.length + 1) bytes with
  | some (v, []) => some v
  | _ => none

/-! ## Numbers and heads -/

@[simp] theorem length_bigEndian (width n : Nat) : (Sha256.bigEndian width n).length = width := by
  induction width generalizing n with
  | zero => rfl
  | succ width ih => rw [Sha256.bigEndian, List.length_append, ih, List.length_singleton]

/-- A number is read back from its last bytes up to what they leave out. -/
theorem ofBigEndian_bigEndian (width n : Nat) :
    ofBigEndian (Sha256.bigEndian width n) = n % 256 ^ width := by
  induction width generalizing n with
  | zero =>
    rw [Nat.pow_zero, Nat.mod_one]
    rfl
  | succ width ih =>
    have hbyte : (UInt8.ofNat n).toNat = n % 256 := UInt8.toNat_ofNat'
    have hfront := ih (n / 256)
    rw [ofBigEndian] at hfront ⊢
    rw [Sha256.bigEndian, List.foldl_append, hfront, List.foldl_cons, List.foldl_nil, hbyte,
      Nat.pow_succ, Nat.mul_comm (256 ^ width), Nat.mod_mul, Nat.add_comm]

theorem readBytes_append (bytes rest : List UInt8) :
    readBytes bytes.length (bytes ++ rest) = some (bytes, rest) := by
  rw [readBytes, if_pos (by simp), List.take_left, List.drop_left]

/-- A number of a width is read back from its bytes. -/
theorem readBytes_bigEndian (width n : Nat) (rest : List UInt8) :
    readBytes width (Sha256.bigEndian width n ++ rest) = some (Sha256.bigEndian width n, rest) := by
  have hread := readBytes_append (Sha256.bigEndian width n) rest
  rwa [length_bigEndian] at hread

/-- A head is read back. -/
theorem readHead_head (hmajor : major < 8) (hn : n < 0x10000000000000000) (rest : List UInt8) :
    readHead (head major n ++ rest) = some ((major, n), rest) := by
  have hbyte : ∀ low < 32, (UInt8.ofNat (major * 32 + low)).toNat = major * 32 + low := by
    intro low hlow
    rw [UInt8.toNat_ofNat']
    exact Nat.mod_eq_of_lt (by omega)
  have hwide : ∀ i < 4, n < 256 ^ 2 ^ i →
      readHead (UInt8.ofNat (major * 32 + (24 + i)) :: Sha256.bigEndian (2 ^ i) n ++ rest) =
        some ((major, n), rest) := by
    intro i hi hfits
    rw [List.cons_append, readHead]
    simp only [hbyte (24 + i) (by omega)]
    rw [if_neg (by omega), if_pos (by omega)]
    have hlow : (major * 32 + (24 + i)) % 32 - 24 = i := by omega
    have hhigh : (major * 32 + (24 + i)) / 32 = major := by omega
    rw [hlow, hhigh, readBytes_bigEndian, Option.map_some, ofBigEndian_bigEndian,
      Nat.mod_eq_of_lt hfits]
  rw [head]
  simp only
  split_ifs with h₀ h₁ h₂ h₃
  · rw [List.cons_append, List.nil_append, readHead]
    simp only [hbyte n (by omega)]
    rw [if_pos (by omega), show (major * 32 + n) / 32 = major by omega,
      show (major * 32 + n) % 32 = n by omega]
  · exact hwide 0 (by decide) h₁
  · exact hwide 1 (by decide) h₂
  · exact hwide 2 (by decide) h₃
  · exact hwide 3 (by decide) hn

/-- A number fits into as many bytes as it takes, and into no fewer. -/
theorem byteLength_le_iff : byteLength n ≤ width ↔ n < 256 ^ width := by
  induction n using byteLength.induct generalizing width with
  | case1 => simp [byteLength]
  | case2 n hn ih =>
    rw [byteLength, dif_neg hn]
    cases width with
    | zero => simp [hn]
    | succ width => rw [Nat.add_le_add_iff_right, ih, Nat.pow_succ, Nat.div_lt_iff_lt_mul (by decide)]

/-! ## Items -/

/-- Whether the lengths in an item fit into sixty-four bits. -/
inductive Addressable : Cbor → Prop where
  | int {n : Int} (h : byteLength n.natAbs < 0x10000000000000000) : Addressable (.int n)
  | text {s : String} (h : (Text.Utf8.bytesOf s).length < 0x10000000000000000) :
      Addressable (.text s)
  | map {fields : List (String × Cbor)} (hcount : fields.length < 0x10000000000000000)
      (hkeys : ∀ f ∈ fields, (Text.Utf8.bytesOf f.1).length < 0x10000000000000000)
      (h : ∀ f ∈ fields, Addressable f.2) : Addressable (.map fields)

mutual

/-- The same item with the fields of its maps in the order in which they are encoded. -/
def canonical : Cbor → Cbor
  | map fields => map ((canonicalFields fields).mergeSort fun f g =>
      keyLe (encodeText f.1) (encodeText g.1))
  | v => v

/-- `canonical` in the value of every field. -/
def canonicalFields : List (String × Cbor) → List (String × Cbor)
  | [] => []
  | (k, v) :: r => (k, canonical v) :: canonicalFields r

end

theorem canonicalFields_eq (fields : List (String × Cbor)) :
    canonicalFields fields = fields.map fun f => (f.1, canonical f.2) := by
  induction fields with
  | nil => rfl
  | cons f fields ih => rw [canonicalFields, ih, List.map_cons]

theorem encodeFields_eq (fields : List (String × Cbor)) :
    encodeFields fields = fields.map fun f => (encodeText f.1, encode f.2) := by
  induction fields with
  | nil => rfl
  | cons f fields ih => rw [encodeFields, ih, List.map_cons]

/-- The fields of a map in the order in which they are encoded. -/
def inKeyOrder (fields : List (String × Cbor)) : List (String × Cbor) :=
  fields.mergeSort fun f g => keyLe (encodeText f.1) (encodeText g.1)

theorem mem_inKeyOrder {f : String × Cbor} {fields : List (String × Cbor)} :
    f ∈ inKeyOrder fields ↔ f ∈ fields := List.mem_mergeSort

/-- A map is encoded as its size and its fields in order. -/
theorem encode_map (fields : List (String × Cbor)) :
    encode (.map fields) =
      head 5 (inKeyOrder fields).length ++
        (inKeyOrder fields).flatMap fun f => encodeText f.1 ++ encode f.2 := by
  have hsort : (inKeyOrder fields).map (fun f => (encodeText f.1, encode f.2)) =
      (fields.map fun f => (encodeText f.1, encode f.2)).mergeSort fun f g => keyLe f.1 g.1 :=
    List.map_mergeSort fun _ _ _ _ => rfl
  rw [encode, encodeFields_eq, ← hsort, List.flatMap_map, inKeyOrder, List.length_mergeSort]

theorem canonical_map (fields : List (String × Cbor)) :
    canonical (.map fields) = .map ((inKeyOrder fields).map fun f => (f.1, canonical f.2)) := by
  have hsort : (inKeyOrder fields).map (fun f => (f.1, canonical f.2)) =
      (fields.map fun f => (f.1, canonical f.2)).mergeSort fun f g =>
        keyLe (encodeText f.1) (encodeText g.1) :=
    List.map_mergeSort fun _ _ _ _ => rfl
  rw [canonical, canonicalFields_eq, hsort]

/-- Whether an item is read back from its encoding, whatever follows. -/
def ReadsBack (v : Cbor) : Prop :=
  ∀ fuel rest, (encode v).length ≤ fuel → readItem fuel (encode v ++ rest) = some (canonical v, rest)

theorem head_ne_nil (major n : Nat) : head major n ≠ [] := by
  rw [head]
  simp only
  split_ifs <;> exact List.cons_ne_nil _ _

theorem length_head_pos (major n : Nat) : 0 < (head major n).length :=
  List.length_pos_of_ne_nil (head_ne_nil major n)

/-- A text is read back after its head. -/
theorem readText_bytesOf (s : String) (rest : List UInt8) :
    readText (Text.Utf8.bytesOf s).length (Text.Utf8.bytesOf s ++ rest) = some (s, rest) := by
  simp only [readText, readBytes_append, Option.bind_eq_bind, Option.bind_some,
    Text.Utf8.text?_bytesOf, Option.pure_def]

/-- A number within sixty-four bits is read back from its head. -/
theorem readItem_number {fuel : Nat} (hn : n < 0x10000000000000000) :
    readItem (fuel + 1) (head 0 n ++ rest) = some (.int (.ofNat n), rest) ∧
    readItem (fuel + 1) (head 1 n ++ rest) = some (.int (.negSucc n), rest) := by
  constructor
  · rw [readItem, readHead_head (by decide) hn]
    rfl
  · rw [readItem, readHead_head (by decide) hn]
    rfl

/-- A greater number is read back from its tagged bytes. -/
theorem readTagged_bigEndian (hwidth : byteLength n < 0x10000000000000000) :
    readTagged 2 (head 2 (byteLength n) ++ Sha256.bigEndian (byteLength n) n ++ rest) =
      some (.int (.ofNat n), rest) ∧
    readTagged 3 (head 2 (byteLength n) ++ Sha256.bigEndian (byteLength n) n ++ rest) =
      some (.int (.negSucc n), rest) := by
  have hdigits : ofBigEndian (Sha256.bigEndian (byteLength n) n) = n := by
    rw [ofBigEndian_bigEndian, Nat.mod_eq_of_lt (byteLength_le_iff.1 le_rfl)]
  constructor
  · simp only [readTagged, List.append_assoc, readHead_head (show 2 < 8 by decide) hwidth,
      Option.bind_eq_bind, Option.bind_some, readBytes_bigEndian, hdigits]
  · simp only [readTagged, List.append_assoc, readHead_head (show 2 < 8 by decide) hwidth,
      Option.bind_eq_bind, Option.bind_some, readBytes_bigEndian, hdigits]

/-- A whole number is read back from its encoding. -/
theorem readItem_int {k : Int} {fuel : Nat} (h : byteLength k.natAbs < 0x10000000000000000) :
    readItem (fuel + 1) (encodeInt k ++ rest) = some (.int k, rest) := by
  have htag : ∀ {tag} bytes, tag < 0x10000000000000000 →
      readItem (fuel + 1) (head 6 tag ++ bytes) = readTagged tag bytes := by
    intro tag bytes htag
    rw [readItem, readHead_head (by decide) htag]
    rfl
  cases k with
  | ofNat n =>
    rw [encodeInt, encodeMagnitude]
    split_ifs with hn
    · exact (readItem_number hn).1
    · rw [List.append_assoc, List.append_assoc, htag _ (by decide), ← List.append_assoc]
      exact (readTagged_bigEndian h).1
  | negSucc n =>
    have hwidth : byteLength n < 0x10000000000000000 := by
      refine Nat.lt_of_le_of_lt (byteLength_le_iff.2 ?_) h
      exact Nat.lt_trans (Nat.lt_succ_self n) (byteLength_le_iff.1 le_rfl)
    rw [encodeInt, encodeMagnitude]
    split_ifs with hn
    · exact (readItem_number hn).2
    · rw [List.append_assoc, List.append_assoc, htag _ (by decide), ← List.append_assoc]
      exact (readTagged_bigEndian hwidth).2

/-- Fields are read back one after the other. -/
theorem readFields_encode {fuel : Nat} {fields : List (String × Cbor)}
    (hkeys : ∀ f ∈ fields, (Text.Utf8.bytesOf f.1).length < 0x10000000000000000)
    (hread : ∀ f ∈ fields, ReadsBack f.2)
    (hfuel : (fields.flatMap fun f => encodeText f.1 ++ encode f.2).length ≤ fuel)
    (rest : List UInt8) :
    readFields fuel fields.length ((fields.flatMap fun f => encodeText f.1 ++ encode f.2) ++ rest) =
      some (fields.map fun f => (f.1, canonical f.2), rest) := by
  induction fields generalizing fuel with
  | nil =>
    rw [List.length_nil, readFields]
    rfl
  | cons f fields ih =>
    rw [List.flatMap_cons, List.length_append, List.length_append, encodeText,
      List.length_append] at hfuel
    have hpos := length_head_pos 3 (Text.Utf8.bytesOf f.1).length
    obtain ⟨fuel, rfl⟩ := Nat.exists_eq_add_of_lt (show 0 < fuel by omega)
    rw [Nat.zero_add] at hfuel ⊢
    have hhead := readHead_head (show 3 < 8 by decide) (hkeys f List.mem_cons_self)
      (Text.Utf8.bytesOf f.1 ++ (encode f.2 ++
        ((fields.flatMap fun f => encodeText f.1 ++ encode f.2) ++ rest)))
    have hvalue := hread f List.mem_cons_self fuel
      ((fields.flatMap fun f => encodeText f.1 ++ encode f.2) ++ rest) (by omega)
    have hothers := ih (fun g hg => hkeys g (List.mem_cons_of_mem f hg))
      (fun g hg => hread g (List.mem_cons_of_mem f hg)) (show _ ≤ fuel by omega)
    rw [List.flatMap_cons, encodeText, List.length_cons, readFields]
    simp only [List.append_assoc, hhead, Option.bind_eq_bind, Option.bind_some, if_true,
      readText_bytesOf, hvalue, hothers, Option.pure_def, List.map_cons]

/-- An item is read back from its encoding, the fields of its maps in order. -/
theorem Addressable.readsBack (h : Addressable v) : ReadsBack v := by
  induction h with
  | @int k h =>
    intro fuel rest hfuel
    have hpos : 0 < (encodeInt k).length := by
      cases k <;>
      · rw [encodeInt, encodeMagnitude]
        split_ifs <;> simp [length_head_pos]
    rw [encode] at hfuel ⊢
    obtain ⟨fuel, rfl⟩ := Nat.exists_eq_add_of_lt (Nat.lt_of_lt_of_le hpos hfuel)
    exact readItem_int h
  | @text s h =>
    intro fuel rest hfuel
    have hpos := length_head_pos 3 (Text.Utf8.bytesOf s).length
    rw [encode, encodeText] at hfuel ⊢
    rw [List.length_append] at hfuel
    obtain ⟨fuel, rfl⟩ := Nat.exists_eq_add_of_lt (show 0 < fuel by omega)
    rw [List.append_assoc, readItem, readHead_head (by decide) h]
    simp only [Option.bind_eq_bind, Option.bind_some, readText_bytesOf, Option.map_some]
    rfl
  | @map fields hcount hkeys h ih =>
    intro fuel rest hfuel
    have hpos := length_head_pos 5 (inKeyOrder fields).length
    have hcount' : (inKeyOrder fields).length < 0x10000000000000000 := by
      rwa [inKeyOrder, List.length_mergeSort]
    rw [encode_map] at hfuel ⊢
    rw [List.length_append] at hfuel
    obtain ⟨fuel, rfl⟩ := Nat.exists_eq_add_of_lt (show 0 < fuel by omega)
    rw [Nat.zero_add] at hfuel ⊢
    have hfields := readFields_encode (fun f hf => hkeys f (mem_inKeyOrder.1 hf))
      (fun f hf => ih f (mem_inKeyOrder.1 hf)) (show _ ≤ fuel by omega) rest
    rw [List.append_assoc, readItem, readHead_head (by decide) hcount']
    simp only [Option.bind_eq_bind, Option.bind_some, hfields, Option.map_some, canonical_map]

end Sysroot.Fingerprint.Cbor

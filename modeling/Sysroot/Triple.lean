import Sysroot.Error.Cause

/-!
# Target triples

A triple names the machine that the libraries are built for: an architecture, a vendor,
an operating system and sometimes an environment, joined by hyphens.  The architecture
must be a known one, because it fixes the size of a pointer.
-/

namespace Sysroot

/-- A target. -/
structure Triple where
  architecture : String
  vendor : String
  system : String
  environment : Option String := none
deriving DecidableEq, Repr

namespace Triple

/-- The order in which a machine stores the bytes of a word. -/
inductive ByteOrder where
  | little
  | big
deriving DecidableEq, Repr

/-- The name of a byte order. -/
def ByteOrder.name : ByteOrder → String
  | little => "little"
  | big => "big"

/-- A known architecture: its name, the bits of a pointer, and its byte order. -/
structure Architecture where
  name : String
  pointerBits : Nat
  byteOrder : ByteOrder
deriving Repr

/-- The known architectures. -/
def architectures : List Architecture := [⟨"wasm32", 32, .little⟩, ⟨"wasm64", 64, .little⟩]

/-- The architecture of a name. -/
def architecture? (name : String) : Option Architecture :=
  architectures.find? fun a => a.name = name

/-- The target that is meant when none is given. -/
def standardText : String := "wasm32-unknown-unknown"

/-- The characters of a component. -/
def isComponentChar (c : Char) : Bool :=
  ('A' ≤ c && c ≤ 'Z') || ('a' ≤ c && c ≤ 'z') || ('0' ≤ c && c ≤ '9') || c = '_' || c = '.'

/-- Whether a text is a component. -/
def isComponent (s : String) : Bool := s ≠ "" && s.toList.all isComponentChar

/-- The triple of a list of components. -/
def ofParts? : List String → Option Triple
  | [a, v, s] => some ⟨a, v, s, none⟩
  | [a, v, s, e] => some ⟨a, v, s, some e⟩
  | _ => none

/-- Reads a triple; blanks around it are no part of it. -/
def read (text : String) : Except Cause Triple :=
  let parts := Text.split '-' (Text.strip text)
  match ofParts? parts with
  | none => .error (.malformedTriple text)
  | some t =>
      if !parts.all isComponent then .error (.malformedTriple text)
      else if (architecture? t.architecture).isNone then
        .error (.unknownArchitecture t.architecture (architectures.map (·.name)) text)
      else .ok t

/-- The text of a triple; an empty environment is left out. -/
def text (t : Triple) : String :=
  Text.join "-" ([t.architecture, t.vendor, t.system] ++
    (match t.environment with
      | none | some "" => []
      | some e => [e]))

end Triple

end Sysroot

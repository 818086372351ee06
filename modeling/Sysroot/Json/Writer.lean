import Sysroot.Json.Basic
import Sysroot.Text.Hex

/-!
# Writing JSON

Two layouts: on one line, and indented by two blanks with one item a line.  Both are
ASCII: a character outside the printable ASCII range is written by its UTF-16 units.
-/

namespace Sysroot.Json

/-- A UTF-16 unit as an escape. -/
def escapeUnit (n : Nat) : List Char :=
  '\\' :: 'u' :: Text.hexOfWidth 4 n

/-- A code point as the escapes of its UTF-16 units. -/
def escapeUnits (n : Nat) : List Char :=
  if n < 0x10000 then escapeUnit n
  else escapeUnit (0xD800 + (n - 0x10000) / 0x400) ++ escapeUnit (0xDC00 + (n - 0x10000) % 0x400)

/-- One character of a JSON string. -/
def writeChar (c : Char) : List Char :=
  if c = '"' then ['\\', '"']
  else if c = '\\' then ['\\', '\\']
  else if c = '\n' then ['\\', 'n']
  else if c = '\r' then ['\\', 'r']
  else if c = '\t' then ['\\', 't']
  else if c = '\x0C' then ['\\', 'f']
  else if c = '\x08' then ['\\', 'b']
  else if 0x20 ≤ c.toNat ∧ c.toNat ≤ 0x7E then [c]
  else escapeUnits c.toNat

/-- A JSON string. -/
def writeString (s : String) : List Char :=
  '"' :: s.toList.flatMap writeChar ++ ['"']

/-- Where line breaks and blanks go between the parts of a value. -/
structure Layout where
  /-- What stands after an opening bracket and before an item, at a depth. -/
  breakAt : Nat → List Char
  /-- What stands between the comma and the next item, at a depth. -/
  gapAt : Nat → List Char

/-- Everything on one line, a blank after each comma. -/
def Layout.line : Layout := ⟨fun _ => [], fun _ => [' ']⟩

/-- One item a line, two blanks a level. -/
def Layout.indented : Layout :=
  let newLine := fun depth => '\n' :: List.replicate (2 * depth) ' '
  ⟨newLine, newLine⟩

mutual

/-- A value at a depth. -/
def write (lay : Layout) (depth : Nat) : Json → List Char
  | null => "null".toList
  | bool true => "true".toList
  | bool false => "false".toList
  | int n => (toString n).toList
  | real text => text.toList
  | str s => writeString s
  | arr [] => ['[', ']']
  | arr (v :: r) =>
      '[' :: lay.breakAt (depth + 1) ++ write lay (depth + 1) v ++ writeItems lay (depth + 1) r
        ++ lay.breakAt depth ++ [']']
  | obj [] => ['\x7b', '\x7d']
  | obj ((k, v) :: r) =>
      '\x7b' :: lay.breakAt (depth + 1) ++ writeString k ++ ':' :: ' ' :: write lay (depth + 1) v
        ++ writeFields lay (depth + 1) r ++ lay.breakAt depth ++ ['\x7d']

/-- The items after the first. -/
def writeItems (lay : Layout) (depth : Nat) : List Json → List Char
  | [] => []
  | v :: r => ',' :: lay.gapAt depth ++ write lay depth v ++ writeItems lay depth r

/-- The fields after the first. -/
def writeFields (lay : Layout) (depth : Nat) : List (String × Json) → List Char
  | [] => []
  | (k, v) :: r =>
      ',' :: lay.gapAt depth ++ writeString k ++ ':' :: ' ' :: write lay depth v
        ++ writeFields lay depth r

end

/-- A value on one line, fields in the order of their keys. -/
def lineText (v : Json) : String :=
  String.ofList (write .line 0 v.sortFields)

/-- A value as an indented block, fields in the order of their keys. -/
def indentedText (v : Json) : String :=
  String.ofList (write .indented 0 v.sortFields)

end Sysroot.Json

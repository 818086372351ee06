import Sysroot.Template.Fault

/-!
# The pieces of a template

A template is literal text and fields in braces; a doubled brace is a literal one.  A
field has a name, which may go on into parts and indices, a conversion after `!` and a
format after `:`.

The pieces are read from the left, and a fault ends them: an expansion meets the fields
before a fault first, so `pieces` keeps them and puts the fault last.
-/

namespace Sysroot.Template

/-- A field as it is written. -/
structure Field where
  /-- The name with its steps into parts and indices. -/
  name : List Char
  conversion : Option Char
  /-- The format, which may contain fields itself. -/
  spec : List Char
deriving DecidableEq, Repr

/-- A piece of a template. -/
inductive Piece where
  | literal (c : Char)
  | field (f : Field)
  | fault (f : Fault)
deriving DecidableEq, Repr

/-- Reads a field name up to the mark that ends it: a closing brace, a colon or an
exclamation mark outside brackets.  Gives the name, the mark and the rest. -/
def readName (bracketed : Bool) : List Char → Except Fault (List Char × Char × List Char)
  | [] => .error .unclosedField
  | c :: r =>
      if bracketed then do
        let (name, mark, rest) ← readName (c != ']') r
        return (c :: name, mark, rest)
      else if c = '\x7b' then .error .braceInName
      else if c = '\x7d' ∨ c = ':' ∨ c = '!' then .ok ([], c, r)
      else do
        let (name, mark, rest) ← readName (c == '[') r
        return (c :: name, mark, rest)

/-- Reads a format up to the brace that closes its field, `depth` braces inside it being
open.  Gives the format and the rest. -/
def readSpec (depth : Nat) : List Char → Except Fault (List Char × List Char)
  | [] => .error .unclosedSpec
  | c :: r =>
      if c = '\x7d' ∧ depth = 0 then .ok ([], r)
      else do
        let (spec, rest) ← readSpec
          (if c = '\x7b' then depth + 1 else if c = '\x7d' then depth - 1 else depth) r
        return (c :: spec, rest)

/-- Reads a field after its opening brace. -/
def readField (cs : List Char) : Except Fault (Field × List Char) := do
  let (name, mark, r) ← readName false cs
  if mark = '\x7d' then return (⟨name, none, []⟩, r)
  else if mark = ':' then
    let (spec, r) ← readSpec 0 r
    return (⟨name, none, spec⟩, r)
  else
    match r with
    | [] => .error .noConversion
    | [_] => .error .unclosedSpec
    | conversion :: c :: r =>
        if c = '\x7d' then return (⟨name, some conversion, []⟩, r)
        else if c = ':' then
          let (spec, r) ← readSpec 0 r
          return (⟨name, some conversion, spec⟩, r)
        else .error .conversionRunsOn

/-- The pieces of a text of at most `fuel` characters. -/
def piecesWithin : Nat → List Char → List Piece
  | 0, _ => []
  | _ + 1, [] => []
  | fuel + 1, c :: r =>
      if c = '\x7d' then
        match r with
        | '\x7d' :: r => .literal c :: piecesWithin fuel r
        | _ => [.fault .singleClose]
      else if c = '\x7b' then
        match r with
        | [] => [.fault .singleOpen]
        | '\x7b' :: r => .literal c :: piecesWithin fuel r
        | r =>
            match readField r with
            | .ok (f, r) => .field f :: piecesWithin fuel r
            | .error fault => [.fault fault]
      else .literal c :: piecesWithin fuel r

/-- The pieces of a template. -/
def pieces (cs : List Char) : List Piece := piecesWithin cs.length cs

end Sysroot.Template

import Sysroot.Template.Fault
import Sysroot.Text.Numeral

/-!
# The format of a field

After a colon a field may say how its text is laid out: a fill character and an
alignment, a width, and a precision that cuts the text.  The notation is shared with
numbers, so signs, separators and number types are read as well and then refused.
-/

namespace Sysroot.Template

/-- The largest number that a template may write. -/
def numberLimit : Nat := 9223372036854775807

/-- Reads the decimal digits at the start of a text: their value, how many there are, and
the rest. -/
def readNumber (value count : Nat) : List Char → Except Fault (Nat × Nat × List Char)
  | [] => .ok (value, count, [])
  | c :: r =>
      match Text.digitValue? c with
      | none => .ok (value, count, c :: r)
      | some d =>
          if value * 10 + d ≤ numberLimit then readNumber (value * 10 + d) (count + 1) r
          else .error .numberTooLong

/-- The number that a text is when all of it is digits.  A text whose leading digits are too
many is refused even when other characters follow. -/
def wholeNumber? (cs : List Char) : Except Fault (Option Nat) := do
  let (value, count, rest) ← readNumber 0 0 cs
  return if rest = [] ∧ 0 < count then some value else none

/-- How a text is laid out. -/
structure Spec where
  fill : Char := ' '
  align : Char := '<'
  sign : Option Char := none
  negativeZero : Bool := false
  alternate : Bool := false
  width : Option Nat := none
  separator : Option Char := none
  precision : Option Nat := none
  type : Char := 's'

/-- The marks that align a text. -/
def isAlign (c : Char) : Bool := c = '<' || c = '>' || c = '=' || c = '^'

/-- The marks that say how a number shows its sign. -/
def isSign (c : Char) : Bool := c = ' ' || c = '+' || c = '-'

/-- Reads a mark if it comes first. -/
def readMark (mark : Char) : List Char → Bool × List Char
  | [] => (false, [])
  | c :: r => if c = mark then (true, r) else (false, c :: r)

/-- Reads the fill character and the alignment; the Boolean says whether a fill character
was given. -/
def readAlign (s : Spec) : List Char → Spec × Bool × List Char
  | f :: a :: r =>
      if isAlign a then ({ s with fill := f, align := a }, true, r)
      else if isAlign f then ({ s with align := f }, false, a :: r)
      else (s, false, f :: a :: r)
  | [a] => if isAlign a then ({ s with align := a }, false, []) else (s, false, [a])
  | [] => (s, false, [])

/-- Reads the thousands separator. -/
def readSeparator (cs : List Char) : Except Fault (Option Char × List Char) :=
  let (comma, cs) := readMark ',' cs
  let (underscore, cs) := readMark '_' cs
  if underscore && (comma || cs.head? = some ',') then .error .twoSeparators
  else .ok (if comma then some ',' else if underscore then some '_' else none, cs)

/-- Reads the precision. -/
def readPrecision (cs : List Char) : Except Fault (Option Nat × List Char) := do
  let (dot, cs) := readMark '.' cs
  if dot then
    let (value, count, cs) ← readNumber 0 0 cs
    if count = 0 then .error .noPrecision else return (some value, cs)
  else return (none, cs)

/-- The types that a separator may go with.  The character with code point zero stands for a
type not given. -/
def allowsSeparator (mark type : Char) : Bool :=
  type ∈ ['d', 'e', 'f', 'g', 'E', 'G', '%', 'F', '\x00'] ||
    (mark = '_' && type ∈ ['b', 'o', 'x', 'X'])

/-- Reads a format. -/
def Spec.read (cs : List Char) : Except Fault Spec := do
  let (s, filled, r) := readAlign {} cs
  let (sign, r) := match r with
    | c :: r => if isSign c then (some c, r) else (none, c :: r)
    | [] => (none, [])
  let (z, r) := readMark 'z' r
  let (alternate, r) := readMark '#' r
  let (zero, r) := if filled then (false, r) else readMark '0' r
  let (value, count, r) ← readNumber 0 0 r
  let (separator, r) ← readSeparator r
  let (precision, r) ← readPrecision r
  let type ← match r with
    | [] => pure 's'
    | [c] => pure c
    | _ => throw (.badSpec (String.ofList cs))
  match separator with
  | some mark => if !allowsSeparator mark type then throw (.separator mark type)
  | none => pure ()
  return { s with
    fill := if zero then '0' else s.fill
    sign := sign
    negativeZero := z
    alternate := alternate
    width := if count = 0 then none else some value
    separator := separator
    precision := precision
    type := type }

/-- The first objection that a text has to a format. -/
def Spec.objection? (s : Spec) : Option Fault :=
  if s.type ≠ 's' then some (.unknownType s.type)
  else match s.sign with
    | some ' ' => some .spaceSign
    | some _ => some .sign
    | none =>
        if s.negativeZero then some .negativeZero
        else if s.alternate then some .alternateForm
        else if s.align = '=' then some .signPadding
        else none

/-- Lays a text out. -/
def Spec.apply (s : Spec) (cs : List Char) : List Char :=
  let cut := match s.precision with
    | some n => cs.take n
    | none => cs
  let room := s.width.getD 0 - cut.length
  let left := if s.align = '>' then room else if s.align = '^' then room / 2 else 0
  List.replicate left s.fill ++ cut ++ List.replicate (room - left) s.fill

/-- The greatest width to which a text is laid out: there is no room for more. -/
def widthLimit : Nat := 4294967296

/-- A text in a format; the empty format leaves it as it is. -/
def format (spec : List Char) (cs : List Char) : Except Fault (List Char) :=
  if spec = [] then .ok cs
  else do
    let s ← Spec.read spec
    match s.objection? with
    | some fault => throw fault
    | none => if widthLimit < s.width.getD 0 then throw .tooWide else return s.apply cs

end Sysroot.Template

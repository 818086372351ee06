import Sysroot.Path

/-!
# File patterns

A pattern is a path whose components may leave something open.  In a component `*` stands
for any characters, `?` for one, and brackets for one of a set, which a leading `!` turns
into its complement; `**` as a whole component stands for any number of directories.

## Sets

Between brackets a hyphen joins the characters around it into a range, unless it comes
first or right after a range.  A range whose end comes before its start is empty, and both
its ends go with it.  A closing bracket that comes first is a member.
-/

namespace Sysroot

namespace Pattern

/-- What a component asks of one or more characters. -/
inductive Item where
  /-- Any characters. -/
  | any
  /-- Any one character. -/
  | one
  | char (c : Char)
  /-- One character in the ranges, or none of them. -/
  | range (negated : Bool) (singles : List Char) (ranges : List (Char × Char))
deriving DecidableEq, Repr

/-- Whether an item that asks for one character is content with it. -/
def Item.accepts (c : Char) : Item → Bool
  | any => false
  | one => true
  | char d => c = d
  | range negated singles ranges =>
      negated != (singles.contains c || ranges.any fun r => r.1 ≤ c && c ≤ r.2)

/-- Cuts the text between brackets at the hyphens that join ranges: such a hyphen has
`skip` characters before it. -/
def cutRanges (skip : Nat) : List Char → List (List Char)
  | [] => [[]]
  | c :: r =>
      if skip = 0 ∧ c = '-' then [] :: cutRanges 2 r
      else
        match cutRanges (skip - 1) r with
        | [] => [[c]]
        | chunk :: chunks => (c :: chunk) :: chunks

/-- A hyphen at the end joins nothing. -/
def restoreLastHyphen : List (List Char) → List (List Char)
  | [chunk, []] => [chunk ++ ['-']]
  | chunk :: chunks => chunk :: restoreLastHyphen chunks
  | [] => []

/-- Drops the ranges that run backwards, with their ends, from the last one on. -/
def dropEmptyRanges : List (List Char) → List (List Char)
  | [] => []
  | chunk :: chunks =>
      match dropEmptyRanges chunks with
      | [] => [chunk]
      | next :: rest =>
          match chunk.getLast?, next.head? with
          | some a, some b =>
              if b < a then (chunk.dropLast ++ next.drop 1) :: rest else chunk :: next :: rest
          | _, _ => chunk :: next :: rest

/-- The ranges between neighbouring chunks. -/
def rangesBetween : List (List Char) → List (Char × Char)
  | chunk :: next :: rest =>
      ((chunk.getLast?.bind fun a => next.head?.map fun b => (a, b)).toList) ++
        rangesBetween (next :: rest)
  | _ => []

/-- The item that a text between brackets writes. -/
def itemOfSet (cs : List Char) : Item :=
  let skip := if cs.head? = some '!' then 2 else 1
  let chunks := if '-' ∈ cs then
      dropEmptyRanges (restoreLastHyphen (cutRanges skip cs))
    else [cs]
  match chunks.flatten with
  | [] => .range false [] []
  | ['!'] => .one
  | '!' :: singles => .range true singles (rangesBetween chunks)
  | singles => .range false singles (rangesBetween chunks)

/-- The text between brackets and the rest, if a bracket closes the set. -/
def closeSet (cs : List Char) : Option (List Char × List Char) :=
  let lead := (if cs.head? = some '!' then 1 else 0)
  let lead := lead + (if (cs.drop lead).head? = some ']' then 1 else 0)
  let body := (cs.drop lead).takeWhile (· ≠ ']')
  match (cs.drop lead).drop body.length with
  | ']' :: rest => some (cs.take lead ++ body, rest)
  | _ => none

/-- The items of a component of at most `fuel` characters. -/
def itemsWithin : Nat → List Char → List Item
  | 0, _ => []
  | _ + 1, [] => []
  | fuel + 1, c :: r =>
      if c = '*' then .any :: itemsWithin fuel r
      else if c = '?' then .one :: itemsWithin fuel r
      else if c = '[' then
        match closeSet r with
        | some (body, rest) => itemOfSet body :: itemsWithin fuel rest
        | none => .char c :: itemsWithin fuel r
      else .char c :: itemsWithin fuel r

/-- Whether a name satisfies items. -/
def matchItems : List Item → List Char → Bool
  | [], cs => cs.isEmpty
  | .any :: items, [] => matchItems items []
  | .any :: items, c :: cs => matchItems items (c :: cs) || matchItems (.any :: items) cs
  | _ :: _, [] => false
  | item :: items, c :: cs => item.accepts c && matchItems items cs
termination_by items cs => items.length + cs.length

/-- Whether a name satisfies a component. -/
def matchName (component name : String) : Bool :=
  matchItems (itemsWithin component.length component.toList) name.toList

/-- A component of a pattern. -/
inductive Component where
  /-- Any number of directories. -/
  | descend
  /-- The entries whose names satisfy a component. -/
  | wild (text : String)
  /-- The entry of a name. -/
  | exact (name : String)
deriving DecidableEq, Repr

/-- Why a text is no pattern. -/
inductive Fault where
  | empty
  | absolute
  /-- Two stars are joined with something else. -/
  | joinedStars
  /-- The text names no component. -/
  | nowhere
  /-- The text names no component and asks for a directory. -/
  | nowhereDir
deriving DecidableEq, Repr

end Pattern

/-- A pattern: its components, and whether only directories match. -/
structure Pattern where
  components : List Pattern.Component
  dirsOnly : Bool
deriving DecidableEq, Repr

namespace Pattern

/-- The component of a text. -/
def componentOf (text : String) : Component :=
  if text = "**" then .descend
  else if text.toList.any fun c => c = '*' || c = '?' || c = '[' then .wild text
  else .exact text

/-- Whether two stars are joined with something else in a component. -/
def joinsStars (text : String) : Bool :=
  text ≠ "**" && ((Text.partsAt '*' text.toList).drop 1).dropLast.any (·.isEmpty)

/-- Reads a pattern. -/
def read (text : String) : Except Fault Pattern :=
  let p := Path.ofText text
  let dirsOnly := text.endsWith "/"
  if text = "" then .error .empty
  else if p.isAbsolute then .error .absolute
  else if p.parts.any joinsStars then .error .joinedStars
  else if p.parts = [] then .error (if dirsOnly then .nowhereDir else .nowhere)
  else .ok ⟨p.parts.map componentOf, dirsOnly⟩

end Pattern

end Sysroot

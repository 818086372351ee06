/-!
# Lines and lists in text

Splitting at a separator, line ends of other systems, and the common indentation of a
block.
-/

namespace Sysroot.Text

/-- The parts between separators; a text without one is its only part. -/
def partsAt (sep : Char) : List Char → List (List Char)
  | [] => [[]]
  | c :: r =>
      if c = sep then [] :: partsAt sep r
      else
        match partsAt sep r with
        | [] => [[c]]
        | part :: parts => (c :: part) :: parts

theorem partsAt_ne_nil (sep : Char) (cs : List Char) : partsAt sep cs ≠ [] := by
  cases cs with
  | nil => simp [partsAt]
  | cons c r =>
      unfold partsAt
      split
      · simp
      · split <;> simp

/-- The parts of a string between separators. -/
def split (sep : Char) (s : String) : List String :=
  (partsAt sep s.toList).map String.ofList

/-- Texts with a separator between them. -/
def join (sep : String) (parts : List String) : String :=
  sep.intercalate parts

/-- Line ends as a single line feed: a carriage return stands for one, and so does a
carriage return with a line feed after it. -/
def unifyLineEnds : List Char → List Char
  | [] => []
  | '\r' :: '\n' :: r => '\n' :: unifyLineEnds r
  | c :: r => (if c = '\r' then '\n' else c) :: unifyLineEnds r

/-! ## Indentation -/

/-- Whether a character indents. -/
def isIndent (c : Char) : Bool := c = ' ' || c = '\t'

/-- The longest common start of two texts. -/
def commonStart : List Char → List Char → List Char
  | a :: r, b :: s => if a = b then a :: commonStart r s else []
  | _, _ => []

/-- The indentation that all lines share which hold more than indentation; `none` when there
is no such line. -/
def sharedIndent (lines : List (List Char)) : Option (List Char) :=
  lines.foldl (fun shared line =>
    if line.all isIndent then shared
    else
      let indent := line.takeWhile isIndent
      some (match shared with
        | none => indent
        | some other => commonStart other indent)) none

/-- A text without the indentation that its lines share.  A line of indentation alone
becomes empty. -/
def dedent (cs : List Char) : List Char :=
  let lines := partsAt '\n' cs
  let width := ((sharedIndent lines).getD []).length
  ['\n'].intercalate (lines.map fun line => if line.all isIndent then [] else line.drop width)

end Sysroot.Text

/-!
# Blank characters

Names in settings, target triples and environment variables may be surrounded by
blanks, and a blank is more than an ASCII space: the information separators
`U+001C`–`U+001F`, the next-line character, and every space separator count, while the
zero-width space and the byte-order mark do not.  `trim` drops the blanks at both ends
and nothing else.
-/

namespace Sysroot.Text

/-- The characters that surround a name without belonging to it. -/
def isBlank (c : Char) : Bool :=
  let n := c.toNat
  (0x09 ≤ n && n ≤ 0x0D) || (0x1C ≤ n && n ≤ 0x20) || n == 0x85 || n == 0xA0 || n == 0x1680 ||
    (0x2000 ≤ n && n ≤ 0x200A) || n == 0x2028 || n == 0x2029 || n == 0x202F || n == 0x205F ||
    n == 0x3000

/-- Every ASCII white space is blank. -/
theorem isBlank_of_isWhitespace {c : Char} (h : c.isWhitespace = true) : isBlank c = true := by
  simp only [Char.isWhitespace, Bool.or_eq_true, decide_eq_true_eq] at h
  rcases h with ((rfl | rfl) | rfl) | rfl <;> rfl

/-- Drops the blanks at the end. -/
def trimRight : List Char → List Char
  | [] => []
  | c :: r =>
      match trimRight r with
      | [] => if isBlank c then [] else [c]
      | t => c :: t

/-- Drops the blanks at both ends. -/
def trim (cs : List Char) : List Char :=
  trimRight (cs.dropWhile isBlank)

/-- A text without the blanks at its ends. -/
def strip (s : String) : String :=
  String.ofList (trim s.toList)

end Sysroot.Text

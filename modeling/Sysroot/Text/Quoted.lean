import Sysroot.Text.Hex
import Sysroot.Text.Printable

/-!
# Quoted text

Messages show a text between quotes, so that its blanks and control characters can be
seen.  The quotes are single ones unless the text has a single quote and no double
one.  The quote and the backslash are escaped by a backslash, line feed, carriage return
and tab by their letters, and every other character that is not kept by its code point in
two, four or eight hexadecimal digits.
-/

namespace Sysroot.Text

/-- The quote that a text is put between. -/
def quoteFor (cs : List Char) : Char :=
  if cs.contains '\'' && !cs.contains '"' then '"' else '\''

/-- A code point by number, in the shortest of the three escapes that holds it. -/
def escapeCodePoint (n : Nat) : List Char :=
  if n < 0x100 then '\\' :: 'x' :: hexOfWidth 2 n
  else if n < 0x10000 then '\\' :: 'u' :: hexOfWidth 4 n
  else '\\' :: 'U' :: hexOfWidth 8 n

/-- One character of a quoted text. -/
def escapeChar (keep : Char → Bool) (quote c : Char) : List Char :=
  if c = quote ∨ c = '\\' then ['\\', c]
  else if c = '\n' then ['\\', 'n']
  else if c = '\r' then ['\\', 'r']
  else if c = '\t' then ['\\', 't']
  else if keep c then [c]
  else escapeCodePoint c.toNat

/-- A text between quotes, where the characters of `keep` show as themselves. -/
def quoteKeeping (keep : Char → Bool) (cs : List Char) : List Char :=
  let quote := quoteFor cs
  quote :: cs.flatMap (escapeChar keep quote) ++ [quote]

/-- A text between quotes; printable characters show as themselves. -/
def quoted (s : String) : String :=
  String.ofList (quoteKeeping isPrintable s.toList)

end Sysroot.Text

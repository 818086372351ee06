import Sysroot.Text.Blank

/-!
# Whole numbers written by people

A worker count comes from an environment variable, where the text may be padded with
blanks, carry a sign, group its digits with single underscores and use the decimal
digits of any script.  The digits of a script are ten consecutive characters, so the
table lists the zero of each.

The blanks around such a number are those of `isBlank` without the information
separators: a text that is otherwise ASCII has only the six ASCII blanks around its
number, and the separators are refused in every text.
-/

namespace Sysroot.Text

/-- The zero of every script that writes decimal digits, in increasing order. -/
def scriptZeros : List Nat := [
  0x30, 0x660, 0x6F0, 0x7C0, 0x966, 0x9E6, 0xA66, 0xAE6, 0xB66, 0xBE6, 0xC66, 0xCE6, 0xD66,
  0xDE6, 0xE50, 0xED0, 0xF20, 0x1040, 0x1090, 0x17E0, 0x1810, 0x1946, 0x19D0, 0x1A80, 0x1A90,
  0x1B50, 0x1BB0, 0x1C40, 0x1C50, 0xA620, 0xA8D0, 0xA900, 0xA9D0, 0xA9F0, 0xAA50, 0xABF0,
  0xFF10, 0x104A0, 0x10D30, 0x11066, 0x110F0, 0x11136, 0x111D0, 0x112F0, 0x11450, 0x114D0,
  0x11650, 0x116C0, 0x11730, 0x118E0, 0x11950, 0x11C50, 0x11D50, 0x11DA0, 0x16A60, 0x16AC0,
  0x16B50, 0x1D7CE, 0x1D7D8, 0x1D7E2, 0x1D7EC, 0x1D7F6, 0x1E140, 0x1E2F0, 0x1E950, 0x1FBF0]

/-- The value of a decimal digit of any script. -/
def digitValue? (c : Char) : Option Nat :=
  (scriptZeros.find? fun z => z ≤ c.toNat && c.toNat < z + 10).map (c.toNat - ·)

/-- The blanks that may stand around a number. -/
def isNumeralBlank (c : Char) : Bool :=
  isBlank c && !(0x1C ≤ c.toNat && c.toNat ≤ 0x1F)

/-- The most digits a number may have. -/
def numeralDigitLimit : Nat := 4300

/-- The digit values of a text in which single underscores may stand between digits;
`none` when it is empty or anything else stands in it. -/
def groupedDigits? : List Char → Option (List Nat)
  | [] => none
  | [c] => (digitValue? c).map ([·])
  | c :: '_' :: r => do return (← digitValue? c) :: (← groupedDigits? r)
  | c :: r => do return (← digitValue? c) :: (← groupedDigits? r)

/-- The number that digit values write in base ten. -/
def ofDigitValues (ds : List Nat) : Nat :=
  ds.foldl (fun n d => 10 * n + d) 0

/-- Reads an unsigned number. -/
def natural? (cs : List Char) : Option Nat := do
  let ds ← groupedDigits? cs
  if ds.length ≤ numeralDigitLimit then some (ofDigitValues ds) else none

/-- Reads a number with its blanks and sign. -/
def integer? (s : String) : Option Int :=
  let trimmed := (s.toList.dropWhile isNumeralBlank).reverse.dropWhile isNumeralBlank |>.reverse
  match trimmed with
  | '+' :: r => (natural? r).map Int.ofNat
  | '-' :: r => (natural? r).map fun n => -Int.ofNat n
  | r => (natural? r).map Int.ofNat

end Sysroot.Text

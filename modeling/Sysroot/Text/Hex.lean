/-!
# Hexadecimal text

Escapes and digests are written in lowercase hexadecimal of a fixed width.
-/

namespace Sysroot.Text

/-- The lowercase digit of a number below sixteen. -/
def hexDigit (n : Nat) : Char :=
  if n < 10 then Char.ofNat (48 + n) else Char.ofNat (87 + n)

/-- The last `width` hexadecimal digits of a number, leading zeros included. -/
def hexOfWidth : Nat → Nat → List Char
  | 0, _ => []
  | w + 1, n => hexOfWidth w (n / 16) ++ [hexDigit (n % 16)]

@[simp] theorem length_hexOfWidth (w n : Nat) : (hexOfWidth w n).length = w := by
  induction w generalizing n with
  | zero => rfl
  | succ w ih => simp [hexOfWidth, ih]

/-- The value of a hexadecimal digit in either case. -/
def hexValue? (c : Char) : Option Nat :=
  if '0' ≤ c ∧ c ≤ '9' then some (c.toNat - 48)
  else if 'a' ≤ c ∧ c ≤ 'f' then some (c.toNat - 87)
  else if 'A' ≤ c ∧ c ≤ 'F' then some (c.toNat - 55)
  else none

/-- Two digits per byte. -/
def hexOfBytes (bytes : List UInt8) : String :=
  String.ofList (bytes.flatMap fun b => hexOfWidth 2 b.toNat)

end Sysroot.Text

/-!
# UTF-8

Files hold bytes, and text is their UTF-8 reading.  `pieces` cuts a byte string into
characters and maximal ill-formed parts: a part ends before the first byte that cannot
continue it.  The strict reading `decode?` refuses a string with an ill-formed part, the
lossy reading `decodeLossy` shows each part as one replacement character.

## The machine

The cut is made by a machine that reads one byte at a time and remembers how many
continuation bytes it is owed, which bytes the next may be, and the bits so far.  The
first continuation byte is narrower than the others after `E0`, `ED`, `F0` and `F4`: that
is what rules out overlong forms, surrogates and numbers above `10FFFF`.
-/

namespace Sysroot.Text.Utf8

/-- What the machine remembers inside a character. -/
structure Pending where
  /-- Continuation bytes still owed, never zero. -/
  owed : Nat
  /-- The least byte that continues the character. -/
  low : UInt8
  /-- The greatest byte that continues the character. -/
  high : UInt8
  /-- The bits read so far. -/
  bits : Nat
deriving DecidableEq, Repr

/-- What a first byte announces. -/
inductive Lead where
  | whole (code : Nat)
  | begins (state : Pending)
  | invalid
deriving DecidableEq, Repr

/-- What a byte announces between characters. -/
def lead (b : UInt8) : Lead :=
  let n := b.toNat
  if n < 0x80 then .whole n
  else if n < 0xC2 then .invalid
  else if n < 0xE0 then .begins ⟨1, 0x80, 0xBF, n - 0xC0⟩
  else if n = 0xE0 then .begins ⟨2, 0xA0, 0xBF, 0⟩
  else if n = 0xED then .begins ⟨2, 0x80, 0x9F, 13⟩
  else if n < 0xF0 then .begins ⟨2, 0x80, 0xBF, n - 0xE0⟩
  else if n = 0xF0 then .begins ⟨3, 0x90, 0xBF, 0⟩
  else if n < 0xF4 then .begins ⟨3, 0x80, 0xBF, n - 0xF0⟩
  else if n = 0xF4 then .begins ⟨3, 0x80, 0x8F, 4⟩
  else .invalid

/-- The machine's state: the character it stands in, if any, and the pieces before it in
reverse.  A piece is a character or, as `none`, an ill-formed part. -/
structure State where
  current : Option Pending
  done : List (Option Char)

/-- Reads a byte between characters. -/
def State.start (done : List (Option Char)) (b : UInt8) : State :=
  match lead b with
  | .whole code => ⟨none, some (Char.ofNat code) :: done⟩
  | .begins state => ⟨some state, done⟩
  | .invalid => ⟨none, none :: done⟩

/-- Reads a byte. -/
def State.step (s : State) (b : UInt8) : State :=
  match s.current with
  | none => .start s.done b
  | some p =>
      if p.low ≤ b ∧ b ≤ p.high then
        let bits := p.bits * 64 + (b.toNat - 0x80)
        if p.owed ≤ 1 then ⟨none, some (Char.ofNat bits) :: s.done⟩
        else ⟨some ⟨p.owed - 1, 0x80, 0xBF, bits⟩, s.done⟩
      else .start (none :: s.done) b

/-- The pieces when the input ends here: a character that still owes bytes is ill-formed. -/
def State.finish (s : State) : List (Option Char) :=
  match s.current with
  | none => s.done.reverse
  | some _ => (none :: s.done).reverse

/-- The characters and ill-formed parts of a byte string. -/
def pieces (bytes : List UInt8) : List (Option Char) :=
  (bytes.foldl State.step ⟨none, []⟩).finish

/-- The character that stands for an ill-formed part. -/
def replacement : Char := Char.ofNat 0xFFFD

/-- The lossy reading: one replacement character per ill-formed part. -/
def decodeLossy (bytes : List UInt8) : List Char :=
  (pieces bytes).map (·.getD replacement)

/-- The strict reading: `none` when a part is ill-formed. -/
def decode? (bytes : List UInt8) : Option (List Char) :=
  (pieces bytes).mapM id

/-- The bytes of a text. -/
def encode (cs : List Char) : List UInt8 :=
  cs.flatMap String.utf8EncodeChar

/-- The bytes of a string. -/
def bytesOf (s : String) : List UInt8 :=
  encode s.toList

/-- The string that bytes spell, when they spell one. -/
def text? (bytes : List UInt8) : Option String :=
  (decode? bytes).map String.ofList

/-- The part of a byte string that a limit keeps: its last `limit` bytes for a positive
limit, all of it for zero, and what follows the first `-limit` bytes for a negative one. -/
def lastBytes (bytes : List UInt8) (limit : Int) : List UInt8 :=
  if limit > 0 then bytes.drop (bytes.length - limit.toNat) else bytes.drop (-limit).toNat

/-- The lossy reading of the end of a byte string. -/
def tailText (bytes : List UInt8) (limit : Int) : String :=
  String.ofList (decodeLossy (lastBytes bytes limit))

end Sysroot.Text.Utf8

import Sysroot.Json.Basic
import Sysroot.Text.Hex
import Sysroot.Text.Numeral

/-!
# Reading JSON

The reader accepts the JSON grammar and, as values that are no whole numbers, `NaN`,
`Infinity` and `-Infinity`.  Of several fields of one name the last counts, in the place
of the first.  Whole numbers have at most as many digits as the reader allows, `numeralDigitLimit`
unless it is told otherwise, and arrays and objects are at most `depthLimit` deep in each other.

A complaint says what was expected and where.  The functions below carry the rest of the
text and nothing else, so a place is the length of the rest from that place on; `read`
turns it into a line, a column and an offset.
-/

namespace Sysroot.Json

/-- What is wrong at a place of a text. -/
inductive Complaint where
  | byteOrderMark
  | value
  | fieldName
  | colon
  | comma
  | extraData
  | unterminatedString
  | controlCharacter
  | escape
  | unicodeEscape
deriving DecidableEq, Repr

/-- The words of a complaint. -/
def Complaint.text : Complaint → String
  | byteOrderMark => "Unexpected UTF-8 BOM (decode using utf-8-sig)"
  | value => "Expecting value"
  | fieldName => "Expecting property name enclosed in double quotes"
  | colon => "Expecting ':' delimiter"
  | comma => "Expecting ',' delimiter"
  | extraData => "Extra data"
  | unterminatedString => "Unterminated string starting at"
  | controlCharacter => "Invalid control character at"
  | escape => "Invalid \\escape"
  | unicodeEscape => "Invalid \\uXXXX escape"

/-- Why a text is refused. -/
inductive Refusal where
  /-- The text is not JSON: a complaint, and the length of the text from its place on. -/
  | malformed (complaint : Complaint) (remaining : Nat)
  /-- A whole number has too many digits. -/
  | longNumber
  /-- Arrays and objects are too deep in each other. -/
  | tooDeep
deriving DecidableEq, Repr

/-- How deep arrays and objects may be in each other. -/
def depthLimit : Nat := 987

/-- A reading step: a result and the rest of the text. -/
abbrev Reading (α : Type) := Except Refusal (α × List Char)

/-- Refuses the text at the place where `rest` starts. -/
def refuse {α : Type} (complaint : Complaint) (rest : List Char) : Reading α :=
  .error (.malformed complaint rest.length)

/-- The white space of JSON. -/
def isSpace (c : Char) : Bool := c = ' ' || c = '\t' || c = '\n' || c = '\r'

/-- The text after its white space. -/
def skipSpace (cs : List Char) : List Char := cs.dropWhile isSpace

/-- The number that hexadecimal digits write. -/
def ofHexDigits? (ds : List Char) : Option Nat :=
  ds.foldlM (fun n d => (Text.hexValue? d).map (16 * n + ·)) 0

/-- The character of a letter after a backslash. -/
def escaped? : Char → Option Char
  | '"' => some '"'
  | '\\' => some '\\'
  | '/' => some '/'
  | 'b' => some '\x08'
  | 'f' => some '\x0C'
  | 'n' => some '\n'
  | 'r' => some '\r'
  | 't' => some '\t'
  | _ => none

/-- Whether a UTF-16 unit opens a pair. -/
def isHighUnit (n : Nat) : Bool := 0xD800 ≤ n && n ≤ 0xDBFF

/-- Whether a UTF-16 unit closes a pair. -/
def isLowUnit (n : Nat) : Bool := 0xDC00 ≤ n && n ≤ 0xDFFF

/-- The character of a pair of UTF-16 units. -/
def pairChar (high low : Nat) : Char :=
  Char.ofNat (0x10000 + (high - 0xD800) * 0x400 + (low - 0xDC00))

/-- The character of a UTF-16 unit that is not part of a pair. -/
def unitChar (n : Nat) : Char :=
  if isHighUnit n || isLowUnit n then Char.ofNat 0xFFFD else Char.ofNat n

/-- Reads what follows a backslash: a character, and how many characters write it.  A unit
escape needs a character after its digits, and a high unit is joined with a low one that
follows as another escape with a character after it. -/
def readEscape (cs : List Char) : Except Refusal (Char × Nat) :=
  match cs with
  | 'u' :: r =>
      let bad := Refusal.malformed .unicodeEscape
      match (r.drop 4).isEmpty, ofHexDigits? (r.take 4) with
      | false, some n =>
          if isHighUnit n && !(r.drop 10).isEmpty && (r.drop 4).take 2 == ['\\', 'u'] then
            match ofHexDigits? ((r.drop 6).take 4) with
            | some m => .ok (if isLowUnit m then (pairChar n m, 11) else (unitChar n, 5))
            | none => .error (bad (r.drop 5).length)
          else .ok (unitChar n, 5)
      | _, _ => .error (bad cs.length)
  | e :: _ =>
      match escaped? e with
      | some c => .ok (c, 1)
      | none => .error (.malformed .escape (cs.length + 1))
  | [] => .error (.malformed .escape 1)

/-- Reads a string after its opening quote; `opening` is the length of the text from that
quote on, and `done` what was read, in reverse. -/
def readString (opening : Nat) (done : List Char) : List Char → Reading String
  | [] => .error (.malformed .unterminatedString opening)
  | c :: r =>
      if c = '"' then .ok (String.ofList done.reverse, r)
      else if c = '\\' then
        if r = [] then .error (.malformed .unterminatedString opening)
        else
          match readEscape r with
          | .ok (e, width) => readString opening (e :: done) (r.drop width)
          | .error refusal => .error refusal
      else if c.toNat ≤ 0x1F then .error (.malformed .controlCharacter (r.length + 1))
      else readString opening (c :: done) r
termination_by cs => cs.length
decreasing_by
  · simp only [List.length_drop, List.length_cons]; omega
  · simp

/-- Whether a character is an ASCII digit. -/
def isDigit (c : Char) : Bool := '0' ≤ c && c ≤ '9'

/-- The value of ASCII digits. -/
def ofDigits (ds : List Char) : Nat :=
  ds.foldl (fun n d => 10 * n + (d.toNat - 48)) 0

/-- The digits of a whole number at the start of a text: a zero, or digits that do not start
with one. -/
def wholeDigits : List Char → List Char
  | '0' :: _ => ['0']
  | cs => cs.takeWhile isDigit

/-- The fraction at the start of a text. -/
def fractionPart : List Char → List Char
  | '.' :: r => if r.takeWhile isDigit = [] then [] else '.' :: r.takeWhile isDigit
  | _ => []

/-- The exponent at the start of a text. -/
def exponentPart : List Char → List Char
  | e :: r =>
      if e = 'e' ∨ e = 'E' then
        let sign := r.take 1 |>.filter fun c => c = '+' ∨ c = '-'
        let digits := (r.drop sign.length).takeWhile isDigit
        if digits = [] then [] else e :: sign ++ digits
      else []
  | [] => []

/-- Reads a number; a whole one has at most `limit` digits. -/
def readNumber (limit : Nat) (cs : List Char) : Reading Json :=
  let sign := cs.take 1 |>.filter (· = '-')
  let unsigned := cs.drop sign.length
  let digits := wholeDigits unsigned
  if digits = [] then refuse .value cs
  else
    let afterDigits := unsigned.drop digits.length
    let fraction := fractionPart afterDigits
    let afterFraction := afterDigits.drop fraction.length
    let exponent := exponentPart afterFraction
    if fraction = [] ∧ exponent = [] then
      if digits.length ≤ limit then
        let n := Int.ofNat (ofDigits digits)
        .ok (.int (if sign = [] then n else -n), afterDigits)
      else .error .longNumber
    else
      .ok (.real (String.ofList (sign ++ digits ++ fraction ++ exponent)),
        afterFraction.drop exponent.length)

/-- The values that are written as words. -/
def words : List (List Char × Json) := [
  ("null".toList, .null), ("true".toList, .bool true), ("false".toList, .bool false),
  ("NaN".toList, .real "NaN"), ("Infinity".toList, .real "Infinity"),
  ("-Infinity".toList, .real "-Infinity")]

/-- Reads a word or a number. -/
def readScalar (limit : Nat) (cs : List Char) : Reading Json :=
  match words.find? fun w => w.1.isPrefixOf cs with
  | some (w, v) => .ok (v, cs.drop w.length)
  | none => readNumber limit cs

/-- Gives a field a value, in its place if it has one. -/
def setField (fields : List (String × Json)) (k : String) (v : Json) : List (String × Json) :=
  if fields.any (fun f => f.1 = k) then fields.map fun f => if f.1 = k then (k, v) else f
  else fields ++ [(k, v)]

mutual

/-- Reads a value at the start of a text, in which `depth` more levels may be opened and whole
numbers have at most `limit` digits.  The fuel bounds the nesting and the number of parts, both of
which the length of the text bounds. -/
def readValue (limit : Nat) : Nat → Nat → List Char →
    Except Refusal (Json × List Char)
  | 0, _, cs => refuse .value cs
  | fuel + 1, depth, cs =>
      match cs, depth with
      | '"' :: r, _ => do
          let (s, rest) ← readString cs.length [] r
          return (.str s, rest)
      | '[' :: _, 0 | '\x7b' :: _, 0 => .error .tooDeep
      | '[' :: r, depth + 1 =>
          match skipSpace r with
          | ']' :: rest => .ok (.arr [], rest)
          | start => readItems limit fuel depth [] start
      | '\x7b' :: r, depth + 1 =>
          match skipSpace r with
          | '\x7d' :: rest => .ok (.obj [], rest)
          | start => readFields limit fuel depth [] start
      | _, _ => readScalar limit cs

/-- Reads the items of an array up to its closing bracket; `done` holds those before, in
reverse. -/
def readItems (limit : Nat) : Nat → Nat → List Json → List Char →
    Except Refusal (Json × List Char)
  | 0, _, _, cs => refuse .value cs
  | fuel + 1, depth, done, cs => do
      let (v, rest) ← readValue limit fuel depth cs
      match skipSpace rest with
      | ']' :: rest => return (.arr (v :: done).reverse, rest)
      | ',' :: rest => readItems limit fuel depth (v :: done) (skipSpace rest)
      | rest => refuse .comma rest

/-- Reads the fields of an object up to its closing brace; `done` holds those before. -/
def readFields (limit : Nat) : Nat → Nat → List (String × Json) → List Char →
    Except Refusal (Json × List Char)
  | 0, _, _, cs => refuse .value cs
  | fuel + 1, depth, done, cs =>
      match cs with
      | '"' :: r => do
          let (k, rest) ← readString cs.length [] r
          match skipSpace rest with
          | ':' :: rest => do
              let (v, rest) ← readValue limit fuel depth (skipSpace rest)
              match skipSpace rest with
              | '\x7d' :: rest => return (.obj (setField done k v), rest)
              | ',' :: rest => readFields limit fuel depth (setField done k v) (skipSpace rest)
              | rest => refuse .comma rest
          | rest => refuse .colon rest
      | _ => refuse .fieldName cs

end

/-- Reads a text that holds one value and white space, with whole numbers of at most `limit`
digits and arrays and objects at most `depth` deep in each other. -/
def readBounded (limit depth : Nat) (s : String) : Except Refusal Json := do
  let cs := s.toList
  if cs.head? = some (Char.ofNat 0xFEFF) then
    .error (.malformed .byteOrderMark cs.length)
  else
    let (v, rest) ← readValue limit (2 * cs.length + 2) depth (skipSpace cs)
    match skipSpace rest with
    | [] => return v
    | rest => .error (.malformed .extraData rest.length)

/-- Reads a text that holds one value and white space, with whole numbers of at most `limit`
digits. -/
def readWithin (limit : Nat) (s : String) : Except Refusal Json := readBounded limit depthLimit s

/-- Reads a text that holds one value and white space. -/
def read (s : String) : Except Refusal Json := readWithin Text.numeralDigitLimit s

/-- A complaint with its place: line and column from one, offset from zero. -/
def placedText (complaint : Complaint) (s : String) (remaining : Nat) : String :=
  let before := s.toList.take (s.toList.length - remaining)
  let line := before.count '\n' + 1
  let column := (before.reverse.takeWhile (· ≠ '\n')).length + 1
  let what := complaint.text
  let offset := before.length
  s!"{what}: line {line} column {column} (char {offset})"

end Sysroot.Json

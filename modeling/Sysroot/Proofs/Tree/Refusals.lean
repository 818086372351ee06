import Sysroot.Proofs.Tree.Actions
import Sysroot.Tree.Select

/-!
# How actions on a file tree fail

An action that is made of single operations fails with a refusal of the file system and with
nothing else.  A question is refused only for a name that is too long, and a search asks
questions.
-/

namespace Sysroot

open Effect

/-- Whether a failure is a refusal of the file system, or a path that cannot be put to it. -/
def Fault.IsRefusal : Fault → Prop
  | .system _ | .nullCharacter => True
  | _ => False

namespace Tree

variable {t : Tree} {p : Path}

/-! ## Questions -/

/-- Whether a question to the tree is refused so. -/
def Unasked (t : Tree) (e : SystemError) : Prop :=
  ∃ (p : Path) (answer : Tree → Path → Bool), t.query p answer = .error e

/-- Only a name that is too long makes a question impossible. -/
theorem Unasked.reason {e : SystemError} (h : t.Unasked e) :
    ∃ p : Path, t.locate p = .error .nameTooLong ∧ hasNull p.text = false ∧
      e = .refused .nameTooLong p.text := by
  obtain ⟨p, answer, h⟩ := h
  refine ⟨p, ?_⟩
  unfold query at h
  split at h
  · rename_i hlocate
    split at h
    · cases h
    · rename_i hnull
      exact ⟨hlocate, by simpa using hnull, (Except.error.inj h).symm⟩
  · cases h

theorem failsBy_query (answer : Tree → Path → Bool) : FailsBy t.Unasked (t.query p answer) :=
  fun _ h => ⟨p, answer, h⟩

namespace Action

/-! ## Refusals -/

/-- Whether an action fails only with refusals. -/
abbrev Refusable {α : Type} (x : Action α) : Prop := FailsOnly (fun _ => Fault.IsRefusal) x

theorem failsOnly_see {α : Type} {Q : Tree → Fault → Prop} (f : Tree → α) : FailsOnly Q (see f) :=
  failsOnly_get.bind fun t => failsOnly_pure (f t)

/-- Dealing with refusals leaves the failures of the one who deals with them, and those that are
no refusals. -/
theorem failsOnly_onRefusal {α : Type} {Q : Tree → Fault → Prop} {x : Action α}
    {handle : SystemError → Action α} (hx : FailsOnly (fun t fault => (∃ e, fault = .system e) ∨
      Q t fault) x) (hhandle : ∀ e, FailsOnly Q (handle e)) : FailsOnly Q (onRefusal x handle) := by
  intro t fault t' h
  rw [onRefusal_apply] at h
  split at h
  · rename_i e t₁ hx₁
    exact hhandle e t₁ fault t' h
  · rename_i other t₁ hne hx₁
    cases h
    rcases hx t fault t' hx₁ with ⟨e, rfl⟩ | hfault
    · exact absurd rfl (hne e)
    · exact hfault

theorem Refusable.onRefusal {α : Type} {x : Action α} {handle : SystemError → Action α}
    (hx : Refusable x) (hhandle : ∀ e, Refusable (handle e)) : Refusable (onRefusal x handle) :=
  failsOnly_onRefusal (hx.mono fun _ _ => .inr) hhandle

end Action

end Tree

end Sysroot

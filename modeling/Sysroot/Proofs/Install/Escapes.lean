import Sysroot.Proofs.Install.Listing
import Sysroot.Proofs.Tree.Refusals
import Sysroot.Runner.Rehearsal

/-!
# How an installation fails

Almost every refusal of the file system is given a cause where it is met.  The failures that are
not are few, and each is about something that is asked, read, written or undone without a thought
of failure (`Unclassified`).  An installation fails with a cause or with one of those: what is
refused while files are copied and recorded is undone and then has a cause, unless the undoing is
refused itself (`failsOnly_install`).
-/

namespace Sysroot

open Effect Tree.Action

/-- The failures that nobody gives a cause to, with the tree on which they leave things. -/
inductive Unclassified (root : Path) : Tree → Fault → Prop
  /-- A path cannot be asked about. -/
  | question {t : Tree} {e : SystemError} (h : t.Unasked e) : Unclassified root t (.ofRefusal e)
  /-- A manifest cannot be read, or is no text, or holds what nobody reads. -/
  | manifest {t : Tree} {l : Library} {fault : Fault}
      (h : Install.readManifest root l t = (.error fault, t))
      (hraw : ∀ cause, fault ≠ .caused cause) : Unclassified root t fault
  /-- The outputs of a rehearsed invocation cannot be written. -/
  | output {t t' : Tree} {i : Invocation} {fault : Fault}
      (h : Rehearsal.writeOutputs i i.outputs t = (.error fault, t')) : Unclassified root t' fault
  /-- An installation cannot be undone. -/
  | undo {t t' : Tree} {u : Install.Undo} {fault : Fault} (h : u.run t = (.error fault, t')) :
      Unclassified root t' fault
  /-- A path, an argument or a variable has a NUL in it. -/
  | null {t : Tree} : Unclassified root t .nullCharacter
  /-- What was set aside is dropped after the failure of an installation. -/
  | dropped {t : Tree} {fault : Fault} (aside : Path) (h : Unclassified root t fault) :
      Unclassified root (Install.dropDir aside t) fault

/-- Whether a failure has a cause, or is one of those that nobody gives a cause to. -/
def Settled (root : Path) (t : Tree) (fault : Fault) : Prop :=
  (∃ cause, fault = .caused cause) ∨ Unclassified root t fault

namespace Settled

variable {root : Path} {t : Tree}

theorem caused (cause : Cause) : Settled root t (.caused cause) := .inl ⟨cause, rfl⟩

theorem ofRefusal {e : SystemError} (h : t.Unasked e) : Settled root t (.ofRefusal e) :=
  .inr (.question h)

theorem dropped {fault : Fault} (aside : Path) (h : Settled root t fault) :
    Settled root (Install.dropDir aside t) fault :=
  h.imp_right (.dropped aside)

end Settled

namespace Install

variable {root : Path}

/-- How an installation ends once its copying and recording did: a refusal is undone, and what was
set aside is dropped. -/
def conclude (root : Path) (l : Library) (mapping : OrderedMap String Path) (aside : Path) (u : Undo)
    (done : Except Fault Unit × Tree) : Except Fault (List Path) × Tree :=
  let (result, t) := match done with
    | (.error (.system e), t) => failInstall root l u e t
    | other => other
  (result.map fun () => (inOrder mapping).map fun (relative, _) => root / relative, dropDir aside t)

theorem transact_of_not_copied {l : Library} {mapping : OrderedMap String Path} {aside : Path}
    {t t₁ t₂ : Tree} {u : Undo} {fault : Fault} (hopen : openAside root l t = (.ok aside, t₁))
    (hcopy : copyEach root aside (inOrder mapping) {} t₁ = (.error fault, u, t₂)) :
    transact root l mapping t = conclude root l mapping aside u (.error fault, t₂) := by
  rw [transact, hopen]
  simp only [hcopy]
  cases fault <;> rfl

end Install

end Sysroot

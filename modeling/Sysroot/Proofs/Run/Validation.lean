import Sysroot.Proofs.Plan.Escapes
import Sysroot.Run.Builder

/-!
# What the validation of a run covers

Before a run touches anything, it asks the entries of its libraries which tools they take and
whether they need the sources of LLVM.  The planners never look at these answers: each decides by
the kind, the recipe and the headers of an entry which tools its invocations use and which programs
it writes into their arguments.

Both agree.  An entry is equipped (`Site.Equips`) when the tools that it declares can be run and the
sources that it needs are named; its plan then uses no other tool, and whatever else it may fail
for, it lacks nothing (`Site.plan_supplied`).  Provided headers need only the tools that the
entry declares for them (`Site.headerPlan_supplied`).  A run that was validated equips all its
libraries, whatever the file tree holds (`Builder.validate_covers`).
-/

namespace Sysroot

open Effect

/-- Whether a failure is about a program that the toolchain does not have, or about the sources of
LLVM that the settings do not name. -/
inductive Fault.IsLack : Fault → Prop where
  | program (kind : ToolKind) : IsLack (.caused (.noExecutable kind))
  | llvmSource (l : Library) : IsLack (.caused (.needsLlvmSource l))

/-- Whether all tools that a toolchain is asked to run, by the invocations of what is planned, are
there, and the planning fails for no lack of them. -/
structure Toolchain.Supplies {α : Type} (t : Toolchain) (invocations : α → List Invocation)
    (planned : Except Fault α) : Prop where
  tools : ∀ a, planned = .ok a → ∀ i ∈ invocations a, t.has i.tool = true
  fails : FailsBy (fun fault => ¬ fault.IsLack) planned

/-! ## Toolchains -/

namespace Toolchain

variable {t : Toolchain} {kind : ToolKind}

/-- A demand that is met names tools that can be run. -/
theorem has_of_demand {kinds : List ToolKind} {purpose : String}
    (h : t.demand kinds purpose = .ok ()) : ∀ k ∈ kinds, t.has k = true := by
  intro k hk
  by_contra hno
  have hmissing : k.name ∈ ((kinds.filter fun k => !t.has k).map ToolKind.name).eraseDups.mergeSort
      fun a b => decide (a ≤ b) := by
    rw [List.mem_mergeSort, List.mem_eraseDups]
    exact List.mem_map_of_mem (List.mem_filter.2 ⟨hk, by simpa using hno⟩)
  rw [demand, if_neg (List.ne_nil_of_mem hmissing)] at h
  cases h

/-- A program of the toolchain that can be run has a path. -/
theorem program_of_has (h : t.has kind = true) (hkind : kind ≠ .script) :
    ∃ p, t.program kind = .ok p := by
  rw [has, decide_eq_false hkind, Bool.false_or] at h
  obtain ⟨p, hp⟩ := Option.isSome_iff_exists.1 h
  exact ⟨p, by rw [program, hp]⟩

theorem has_cc : t.has .cc = true := rfl

theorem has_cxx : t.has .cxx = true := rfl

theorem has_ar : t.has .ar = true := rfl

theorem has_script : t.has .script = true := rfl

/-- Asking for a program that is there fails for no lack. -/
theorem program_lacksNone (h : t.has kind = true) (hkind : kind ≠ .script) :
    FailsBy (fun fault => ¬ Fault.IsLack fault) ((t.program kind).mapError .caused) := by
  obtain ⟨p, hp⟩ := program_of_has h hkind
  rw [hp]
  exact failsBy_ok p

end Toolchain

/-! ## What plans are made of -/

namespace Site

variable {s : Site} {t : Tree} {e : Catalog.Entry} {l : Library}

/-- Whether a failure has nothing to do with tools. -/
abbrev LacksNone {α : Type} (x : Except Fault α) : Prop := FailsBy (fun fault => ¬ fault.IsLack) x

theorem lacksNone_ofAnswer {α : Type} (x : Except SystemError α) : LacksNone (Fault.ofAnswer x) := by
  intro fault h
  obtain ⟨e, -, rfl⟩ := mapError_error h
  cases e <;> exact nofun

theorem lacksNone_entry (l : Library) : LacksNone (s.entry l) := by
  intro fault h
  obtain ⟨cause, hcause, rfl⟩ := mapError_error h
  rw [Catalog.entry] at hcause
  split at hcause
  · cases hcause
  · cases hcause
    exact nofun

theorem lacksNone_expand (values : OrderedMap String String) (template : String) :
    LacksNone (expand values template) := by
  unfold expand
  split
  · exact failsBy_ok _
  · split
    · exact failsBy_error nofun
    · exact failsBy_error nofun

theorem lacksNone_existingSourceDir : LacksNone (s.existingSourceDir t e) := by
  refine (lacksNone_ofAnswer _).bind fun found => ?_
  split
  · exact failsBy_ok _
  · exact failsBy_error nofun

theorem lacksNone_checkPrerequisites : LacksNone (s.checkPrerequisites t e) := by
  refine (FailsBy.forIn fun d => (lacksNone_entry d).bind fun e' => ?_).bind fun _ =>
    (FailsBy.forIn fun d => (lacksNone_entry d).bind fun e' => ?_).bind fun _ => failsBy_ok _
  · split
    · exact (lacksNone_ofAnswer _).bind fun _ => (failsBy_error nofun).guard fun _ => failsBy_ok _
    · exact failsBy_ok _
  · split
    · exact (lacksNone_ofAnswer _).bind fun _ => (failsBy_error nofun).guard fun _ => failsBy_ok _
    · exact failsBy_ok _

theorem lacksNone_readyHeaders (directory : String) :
    LacksNone (s.readyHeaders t e directory) := by
  refine lacksNone_existingSourceDir.bind fun source =>
    (lacksNone_ofAnswer _).bind fun found => ?_
  split
  · exact failsBy_ok _
  · exact failsBy_error nofun

theorem lacksNone_copiedHeaders : LacksNone (s.copiedHeaders t e) := by
  unfold copiedHeaders
  split
  · exact (lacksNone_readyHeaders _).map some
  · exact failsBy_ok _

/-! ## Recipes -/

theorem lacksNone_filesMatching (dir : Path) (text : String) :
    LacksNone (filesMatching t dir text) := by
  unfold filesMatching
  split
  · exact lacksNone_ofAnswer _
  · exact failsBy_error nofun

theorem lacksNone_sourceFiles (source : Path) : LacksNone (sourceFiles t e source) := by
  refine (FailsBy.mapM fun text _ => lacksNone_filesMatching _ text).bind fun found => ?_
  dsimp only
  split
  · exact failsBy_error nofun
  · exact failsBy_ok _

theorem lacksNone_embeddedObjects : LacksNone (s.embeddedObjects t e) := by
  refine (FailsBy.mapM fun d _ => (lacksNone_ofAnswer _).bind fun objects => ?_).bind
    fun found => failsBy_ok _
  split
  · exact failsBy_error nofun
  · exact failsBy_ok _

/-- Sources are compiled and archived by tools that every toolchain has. -/
theorem sourcesRecipe_supplied :
    s.toolchain.Supplies id (s.sourcesRecipe t e) := by
  constructor
  · intro invocations h i hi
    obtain ⟨source, -, h⟩ := except_bind_ok h
    obtain ⟨files, -, h⟩ := except_bind_ok h
    obtain ⟨own, -, h⟩ := except_bind_ok h
    split at h
    · cases h
    · cases h
      rcases List.mem_append.1 hi with hi | hi
      · obtain ⟨file, -, rfl⟩ := List.mem_map.1 hi
        exact Toolchain.has_cc
      · obtain rfl := List.mem_singleton.1 hi
        exact Toolchain.has_ar
  · refine lacksNone_existingSourceDir.bind fun source => (lacksNone_sourceFiles _).bind
      fun files => (FailsBy.mapM fun flag _ => lacksNone_expand _ flag).bind fun own => ?_
    split
    · exact failsBy_error nofun
    · exact failsBy_ok _

theorem makefileRecipe_supplied (h : s.toolchain.has .make = true) :
    s.toolchain.Supplies id (s.makefileRecipe t e) := by
  constructor
  · intro invocations hplan i hi
    obtain ⟨source, -, hplan⟩ := except_bind_ok hplan
    obtain ⟨own, -, hplan⟩ := except_bind_ok hplan
    obtain ⟨embedded, -, hplan⟩ := except_bind_ok hplan
    cases hplan
    obtain rfl := List.mem_singleton.1 hi
    exact h
  · exact lacksNone_existingSourceDir.bind fun source =>
      (FailsBy.mapM fun _ _ => (lacksNone_expand _ _).map _).bind fun own =>
        lacksNone_embeddedObjects.bind fun embedded => failsBy_ok _

/-- A configure script runs by itself; besides the C++ compiler, which it is told of, only the
program for makefiles has to be there. -/
theorem scriptRecipe_supplied (h : s.toolchain.has .make = true) :
    s.toolchain.Supplies id (s.scriptRecipe t e) := by
  constructor
  · intro invocations hplan i hi
    obtain ⟨source, -, hplan⟩ := except_bind_ok hplan
    obtain ⟨own, -, hplan⟩ := except_bind_ok hplan
    obtain ⟨cxx, -, hplan⟩ := except_bind_ok hplan
    obtain ⟨args, -, hplan⟩ := except_bind_ok hplan
    cases hplan
    rcases List.mem_cons.1 hi with rfl | hi
    · exact Toolchain.has_script
    · obtain rfl := List.mem_singleton.1 hi
      exact h
  · exact lacksNone_existingSourceDir.bind fun source =>
      (FailsBy.mapM fun flag _ => lacksNone_expand _ flag).bind fun own =>
        (Toolchain.program_lacksNone Toolchain.has_cxx (by decide)).bind fun cxx =>
          (FailsBy.mapM fun arg _ => lacksNone_expand _ arg).bind fun args => failsBy_ok _

/-- The arguments of a configure run name the program that builds the generated tree. -/
theorem lacksNone_configureArguments (hninja : s.toolchain.has .ninja = true)
    (hllvm : e.needsLlvmSource = true → s.settings.llvmSource ≠ none) :
    LacksNone (s.configureArguments e) := by
  unfold configureArguments
  split
  · rw [if_neg fun h => hllvm h.1 h.2]
    refine (Toolchain.program_lacksNone hninja (by decide)).bind fun ninja =>
      (Toolchain.program_lacksNone Toolchain.has_cxx (by decide)).bind fun cxx =>
        (FailsBy.mapM fun flag _ => lacksNone_expand _ flag).bind fun own =>
          (FailsBy.mapM fun entry _ => ?_).bind fun entries => failsBy_ok _
    refine FailsBy.map _ ?_
    unfold expandEntry
    split
    · exact failsBy_ok _
    · split
      · exact failsBy_error nofun
      · exact failsBy_error nofun
  · exact failsBy_error nofun

/-! ## Plans -/

/-- Whether a site has the tools that an entry declares for the build of its library, and the
sources of LLVM if the entry needs them. -/
structure Equips (s : Site) (e : Catalog.Entry) : Prop where
  tools : ∀ kind ∈ e.tools, s.toolchain.has kind = true
  llvmSource : e.needsLlvmSource = true → s.settings.llvmSource ≠ none

/-- The recipes use the tools that an entry of the native kind declares. -/
theorem recipeInvocations_supplied (h : s.Equips e) (hkind : e.kind = .native) :
    s.toolchain.Supplies id (s.recipeInvocations t e) := by
  unfold recipeInvocations
  split
  · exact sourcesRecipe_supplied
  · next hrecipe => exact makefileRecipe_supplied (h.tools _ (by simp [Catalog.Entry.tools, *]))
  · next hrecipe => exact scriptRecipe_supplied (h.tools _ (by simp [Catalog.Entry.tools, *]))
  · refine ⟨fun invocations heq => ?_, failsBy_ok _⟩
    cases heq
    exact nofun
  · exact ⟨nofun, failsBy_error nofun⟩

theorem nativePlan_supplied (h : s.Equips e) (hkind : e.kind = .native) :
    s.toolchain.Supplies Plan.invocations (s.nativePlan t e) := by
  have hrecipe := recipeInvocations_supplied (t := t) h hkind
  constructor
  · intro plan hplan
    obtain ⟨invocations, hinvocations, hplan⟩ := except_bind_ok hplan
    obtain ⟨headers, -, hplan⟩ := except_bind_ok hplan
    cases hplan
    exact hrecipe.tools invocations hinvocations
  · exact hrecipe.fails.bind fun invocations =>
      lacksNone_copiedHeaders.bind fun headers => failsBy_ok _

theorem configuredPlan_supplied (h : s.Equips e) (hkind : e.kind = .configured) :
    s.toolchain.Supplies Plan.invocations (s.configuredPlan t e) := by
  have hcmake := h.tools .cmake (by simp [Catalog.Entry.tools, hkind])
  have hninja := h.tools .ninja (by simp [Catalog.Entry.tools, hkind])
  constructor
  · intro plan hplan i hi
    obtain ⟨source, -, hplan⟩ := except_bind_ok hplan
    obtain ⟨arguments, -, hplan⟩ := except_bind_ok hplan
    obtain ⟨headers, -, hplan⟩ := except_bind_ok hplan
    cases hplan
    rcases List.mem_cons.1 hi with rfl | hi
    · exact hcmake
    · obtain rfl := List.mem_singleton.1 hi
      exact hninja
  · exact lacksNone_existingSourceDir.bind fun source =>
      (lacksNone_configureArguments hninja h.llvmSource).bind fun arguments =>
        lacksNone_copiedHeaders.bind fun headers => failsBy_ok _

/-- The plan of a library that a site equips takes no tool that is not there. -/
theorem plan_supplied (he : s.entry l = .ok e) (h : s.Equips e) :
    s.toolchain.Supplies Plan.invocations (s.plan t l) := by
  unfold plan
  rw [he, except_ok_bind]
  refine ⟨fun plan hplan => ?_, lacksNone_checkPrerequisites.bind fun _ => ?_⟩
  · obtain ⟨-, -, hplan⟩ := except_bind_ok hplan
    split at hplan
    · next hkind => exact (nativePlan_supplied h hkind).tools plan hplan
    · next hkind => exact (configuredPlan_supplied h hkind).tools plan hplan
  · split
    · next hkind => exact (nativePlan_supplied h hkind).fails
    · next hkind => exact (configuredPlan_supplied h hkind).fails

/-- Headers are provided with the tools that the entry of their library declares for that. -/
theorem headerPlan_supplied (he : s.entry l = .ok e)
    (h : ∀ kind ∈ e.headerTools, s.toolchain.has kind = true) :
    s.toolchain.Supplies HeaderPlan.invocations (s.headerPlan t l) := by
  unfold headerPlan
  rw [he, except_ok_bind]
  split
  · next directory _ =>
    refine ⟨fun plan hplan => ?_, lacksNone_readyHeaders directory⟩
    obtain ⟨source, -, hplan⟩ := except_bind_ok hplan
    obtain ⟨found, -, hplan⟩ := except_bind_ok hplan
    split at hplan
    · cases hplan
      exact nofun
    · cases hplan
  · next hheaders hkind hrecipe =>
    have hmake := h .make (by simp [Catalog.Entry.headerTools, hheaders, hrecipe])
    refine ⟨fun plan hplan i hi => ?_, lacksNone_existingSourceDir.bind fun _ => failsBy_ok _⟩
    obtain ⟨source, -, hplan⟩ := except_bind_ok hplan
    cases hplan
    obtain rfl := List.mem_singleton.1 hi
    exact hmake
  · exact ⟨nofun, failsBy_error nofun⟩
  · exact ⟨nofun, failsBy_error nofun⟩

end Site

/-! ## Validation -/

namespace Builder

variable {σ : Type} {b : Builder σ} {order : List Library} {l : Library}

/-- A library whose tools can be told is in the catalog, with those whose headers it needs; its
tools are among those told, and so are the ones for these headers. -/
theorem toolsFor_ok {kinds : List ToolKind} (h : b.toolsFor l = .ok kinds) :
    ∃ e, b.catalog.entry l = .ok e ∧ (∀ kind ∈ e.tools, kind ∈ kinds) ∧
      (e.needsLlvmSource = true → b.settings.llvmSource ≠ none) ∧
      ∀ d ∈ e.headerRequires, ∃ e', b.catalog.entry d = .ok e' ∧
        ∀ kind ∈ e'.headerTools, kind ∈ kinds := by
  obtain ⟨e, he, h⟩ := except_bind_ok h
  obtain ⟨headerTools, hheaders, h⟩ := except_bind_ok h
  split at h
  · cases h
  rename_i hllvm
  cases h
  refine ⟨e, he, fun kind hkind => List.mem_append_left _ hkind, fun hneeds hnone => ?_,
    fun d hd => ?_⟩
  · simp [hneeds, hnone] at hllvm
  · obtain ⟨tools, hmem, htools⟩ := except_mem_of_mapM hheaders hd
    obtain ⟨e', he', htools⟩ := except_bind_ok htools
    cases htools
    exact ⟨e', he', fun kind hkind =>
      List.mem_append_right _ (List.mem_flatten.2 ⟨_, hmem, hkind⟩)⟩

/-- A run that was validated never lacks a tool.  In every file tree, each invocation of the plan of
one of its libraries, and of the plans that provide the headers this one needs, uses a tool that can
be run; and no such planning fails because a program is not configured or the sources of LLVM are
not named. -/
theorem validate_covers (h : b.validate order = .ok ()) :
    ∀ l ∈ order, ∃ e, b.catalog.find? l = some e ∧ ∀ platformFile t,
      b.toolchain.Supplies Plan.invocations ((b.site platformFile).plan t l) ∧
      ∀ d ∈ e.headerRequires,
        b.toolchain.Supplies HeaderPlan.invocations ((b.site platformFile).headerPlan t d) := by
  intro l hl
  obtain ⟨kinds, hkinds, h⟩ := except_bind_ok h
  have hhas := Toolchain.has_of_demand h
  obtain ⟨tools, htools, htold⟩ := except_mem_of_mapM hkinds hl
  have hflat : ∀ kind ∈ tools, b.toolchain.has kind = true := fun kind hkind =>
    hhas kind (List.mem_flatten.2 ⟨tools, htools, hkind⟩)
  obtain ⟨e, he, hown, hllvm, hheaders⟩ := toolsFor_ok htold
  have hentry : ∀ platformFile {d e'}, b.catalog.entry d = .ok e' →
      (b.site platformFile).entry d = .ok e' := fun platformFile d e' he' => by
    rw [Site.entry, show (b.site platformFile).catalog = b.catalog from rfl, he']
    rfl
  refine ⟨e, Catalog.entry_eq_ok_iff.1 he, fun platformFile t => ⟨?_, fun d hd => ?_⟩⟩
  · exact Site.plan_supplied (hentry platformFile he)
      ⟨fun kind hkind => hflat kind (hown kind hkind), hllvm⟩
  · obtain ⟨e', he', htools'⟩ := hheaders d hd
    exact Site.headerPlan_supplied (hentry platformFile he') fun kind hkind =>
      hflat kind (htools' kind hkind)

/-- A builder of the standard libraries that has every tool. -/
def equippedBuilder : Builder Unit where
  settings :=
    { sourcesDir := ⟨.root, ["src"]⟩, buildRoot := ⟨.root, ["build"]⟩, sysrootDir := ⟨.root, ["s"]⟩,
      llvmSource := some ⟨.root, ["llvm"]⟩ }
  toolchain :=
    { triple := ⟨"wasm32", "unknown", "unknown", none⟩, compiler := ⟨.root, ["cc"]⟩,
      linker := ⟨.root, ["ld"]⟩, archiver := ⟨.root, ["ar"]⟩, cmake := some ⟨.root, ["cmake"]⟩,
      ninja := some ⟨.root, ["ninja"]⟩, make := some ⟨.root, ["make"]⟩ }
  runner := ⟨fun _ t s => ⟨.error .notText, t, s, false⟩, id⟩

theorem validate_covers_equipped :
    equippedBuilder.validate [.dlmalloc, .libunwind] = .ok () ∧
      ∃ e, equippedBuilder.catalog.find? .dlmalloc = some e ∧ ∀ platformFile t,
        equippedBuilder.toolchain.Supplies Plan.invocations
          ((equippedBuilder.site platformFile).plan t .dlmalloc) ∧
        ∀ d ∈ e.headerRequires, equippedBuilder.toolchain.Supplies HeaderPlan.invocations
          ((equippedBuilder.site platformFile).headerPlan t d) := by
  have hvalid : (equippedBuilder.validate [.dlmalloc, .libunwind]).toOption = some () := by
    decide +kernel
  have hvalidate : equippedBuilder.validate [.dlmalloc, .libunwind] = .ok () := by
    rcases h : equippedBuilder.validate [.dlmalloc, .libunwind] with cause | _
    · rw [h] at hvalid
      cases hvalid
    · rfl
  exact ⟨hvalidate, validate_covers hvalidate .dlmalloc List.mem_cons_self⟩

end Builder

end Sysroot

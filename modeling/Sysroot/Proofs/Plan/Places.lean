import Sysroot.Plan.Choice
import Sysroot.Proofs.Install.Siting
import Sysroot.Proofs.Tree.Confined

/-!
# Where plans work

Whatever its recipe, a plan works in the build directory of its library: its invocations start
there, and everything that they put out is below it (`Site.plan_contains`,
`Site.headerPlan_contains`), provided that what the catalog names below `lib` and `include` goes down
from there.  Headers that are installed besides come from the sources.
-/

namespace Sysroot

open Effect Sysroot.Tree

/-- Whether what an entry of a catalog names below `lib` and `include` goes down from there. -/
structure Catalog.Entry.Inward (e : Catalog.Entry) : Prop where
  archive : ∀ name, e.archive = some name → Path.GoesDown name
  marker : ∀ name, e.markerHeader = some name → Path.GoesDown name
  place : Path.GoesDown e.headerPrefix

/-- Whether the build of a library must stage its archive: that of one that is more than headers
must. -/
def Catalog.Entry.StagesArchive (e : Catalog.Entry) : Prop :=
  e.kind = .configured ∨ e.recipe ≠ some .headers

/-- Whether the build of a library must stage its marker header: that of one that is built from a
list of sources need not, nor does any whose headers are installed from the sources. -/
def Catalog.Entry.StagesMarker (e : Catalog.Entry) : Prop :=
  e.copiesPublicHeaders = false ∧
    (e.kind = .configured ∨ e.recipe = some .makefile ∨ e.recipe = some .configureScript)

namespace Path.GoesDown

variable {text name : String}

/-- A text that goes down from a directory directly below a root. -/
theorem div_section (h : GoesDown text) (hname : isName name = true) (root : Path) :
    root / name / text = root.within (name :: (ofText text).parts) := by
  rw [h.div, div_name hname, within_within]
  rfl

theorem descending_section (h : GoesDown text) (hname : isName name = true) :
    Descending (name :: (ofText text).parts) := by
  intro part hpart
  rcases List.mem_cons.1 hpart with rfl | hpart
  · exact (isName_iff.1 hname).1
  · exact h.descending part hpart

end Path.GoesDown

/-- Whether an invocation works below a root. -/
structure Invocation.Inside (root : Path) (i : Invocation) : Prop where
  cwd : Below root i.cwd
  outputs : ∀ p ∈ i.outputs, Below root p ∧ Below root p.parent

/-- Whether an invocation works in the build directory of a library and leaves its outputs at places
below it. -/
structure Invocation.At (s : Site) (l : Library) (places : List String → Prop) (i : Invocation) :
    Prop where
  cwd : i.cwd = s.scratchDir l
  outputs : ∀ p ∈ i.outputs, ∃ names, places names ∧ names ≠ [] ∧ Descending names ∧
    p = s.settings.buildRoot.within ((l.name ++ "-build") :: names)

/-- Where below a stage the build of a library leaves what it must stage. -/
inductive Catalog.Entry.Staged (e : Catalog.Entry) : List String → Prop
  | archive {a : String} (ha : e.archive = some a) : Staged e ("lib" :: (Path.ofText a).parts)
  | marker {h : String} (hh : e.markerHeader = some h) (hcopies : e.copiesPublicHeaders = false) :
      Staged e ("include" :: (Path.ofText h).parts)

/-- Where below its build directory the build of a library leaves outputs. -/
inductive Catalog.Entry.PutsOut (e : Catalog.Entry) : List String → Prop
  | object (names : List String) : PutsOut e ("obj" :: names)
  | configured : PutsOut e ["cmake", "build.ninja"]
  | staged {names : List String} (h : e.Staged names) : PutsOut e ("stage" :: names)

/-- Where below its build directory the headers of a library are provided. -/
def Catalog.Entry.PutsHeaders (e : Catalog.Entry) (names : List String) : Prop :=
  ∃ h, e.markerHeader = some h ∧ names = "headers" :: "include" :: (Path.ofText h).parts

namespace Tree

variable {t : Tree} {p : Path}

/-- A file is never at a path whose last component has a slash in it. -/
theorem no_slash_of_isFile (h : t.isFile p = true) : '/' ∉ p.name.toList := by
  obtain ⟨l, n, hl, hn⟩ : ∃ l n, locateFrom t .target linkBudget (t.startOf p) p.parts = .ok l ∧
      t.get? l = some n := by
    unfold isFile node? Tree.locate at h
    split at h
    · next hnode =>
      split at hnode
      · next hl =>
        split at hl
        · cases hl
        · exact ⟨_, _, hl, hnode⟩
      · cases hnode
    · cases h
  by_cases hnil : p.parts = []
  · rw [Path.name, hnil]
    decide
  obtain ⟨front, name, hparts⟩ : ∃ front name, p.parts = front ++ [name] :=
    ⟨p.parts.dropLast, p.parts.getLast hnil, (List.dropLast_concat_getLast hnil).symm⟩
  have hname : p.name = name := by
    rw [Path.name, hparts, List.getLast?_concat]
    rfl
  rw [hname]
  rw [hparts] at hl
  by_cases hempty : name = ""
  · rw [hempty]
    decide
  obtain ⟨d, hd, hdir⟩ := locateFrom_parent (List.cons_ne_nil name []) hl
  obtain ⟨k, hk⟩ := locateFrom_onward .target (List.cons_ne_nil name [])
    (fun heq => hempty (List.cons.inj heq).1) hd hdir
  rw [hk] at hl
  -- what is in a directory under the component has it as a name
  rcases hthere : t.get? (d ++ [name]) with _ | m
  · unfold locateFrom at hl
    rw [stretch, hdir] at hl
    by_cases hdot : name = "."
    · rw [hdot]
      decide
    by_cases hdots : name = ".."
    · rw [hdots]
      decide
    by_cases hlong : nameLimit < name.utf8ByteSize
    · simp [hempty, hdot, hdots, hlong] at hl
    · simp only [hempty, hdot, hdots, hlong, hthere, or_self, reduceCtorEq, false_and, if_false,
        if_true, Except.ok.injEq] at hl
      rw [← hl, hthere] at hn
      cases hn
  · exact (isName_iff.1 (isName_of_get? hthere name
      (List.mem_append_right d List.mem_cons_self))).2.2.1

end Tree

namespace Path

/-- The stem of a name is a beginning of it. -/
theorem stem_prefix (p : Path) : p.stem.toList <+: p.name.toList := by
  rw [stem, String.toList_ofList, splitSuffix]
  split
  · exact List.take_prefix _ _
  · exact List.prefix_rfl

end Path

namespace Site

variable {s : Site} {t : Tree} {e : Catalog.Entry} {l : Library} {names : List String}

/-! ## Directories -/

theorem isName_build (l : Library) : isName (l.name ++ "-build") = true := by
  cases l <;> rfl

theorem scratchDir_eq (s : Site) (l : Library) :
    s.scratchDir l = s.settings.buildRoot.within [l.name ++ "-build"] :=
  Path.div_name (isName_build l)

theorem stageDir_eq (s : Site) (l : Library) :
    s.stageDir l = s.settings.buildRoot.within [l.name ++ "-build", "stage"] := by
  rw [stageDir, scratchDir_eq, Path.div_name (by decide), Path.within_within]
  rfl

theorem headerStageDir_eq (s : Site) (l : Library) :
    s.headerStageDir l = s.settings.buildRoot.within [l.name ++ "-build", "headers"] := by
  rw [headerStageDir, scratchDir_eq, Path.div_name (by decide), Path.within_within]
  rfl

theorem objectDir_eq (s : Site) (l : Library) :
    s.objectDir l = s.settings.buildRoot.within [l.name ++ "-build", "obj"] := by
  rw [objectDir, scratchDir_eq, Path.div_name (by decide), Path.within_within]
  rfl

/-- What goes down from the build directory of a library is below the directory of all builds, and
so is the directory that it is in. -/
theorem below_scratch (s : Site) (l : Library) (hne : names ≠ []) (hnames : Descending names) :
    Below s.settings.buildRoot (s.settings.buildRoot.within ((l.name ++ "-build") :: names)) ∧
      Below s.settings.buildRoot
        (s.settings.buildRoot.within ((l.name ++ "-build") :: names)).parent := by
  have hbuild : Descending [l.name ++ "-build"] := Plain.descending (by simpa using isName_build l)
  obtain ⟨front, name, rfl⟩ : ∃ front name, names = front ++ [name] :=
    ⟨names.dropLast, names.getLast hne, (List.dropLast_concat_getLast hne).symm⟩
  refine ⟨⟨_, List.cons_ne_nil _ _, hbuild.append hnames, rfl⟩, _, List.cons_ne_nil _ _,
    hbuild.append (hnames.of_prefix (List.prefix_append front [name])), ?_⟩
  rw [← List.cons_append, Path.parent_within]
  rfl

theorem below_scratchDir (s : Site) (l : Library) :
    Below s.settings.buildRoot (s.scratchDir l) :=
  ⟨_, List.cons_ne_nil _ _, Plain.descending (by simpa using isName_build l), scratchDir_eq s l⟩

theorem inside_of_at {i : Invocation} {places : List String → Prop}
    (h : i.At s l places) : i.Inside s.settings.buildRoot where
  cwd := h.cwd ▸ s.below_scratchDir l
  outputs p hp := by
    obtain ⟨names, -, hne, hnames, rfl⟩ := h.outputs p hp
    exact s.below_scratch l hne hnames

/-- What must be staged is below the stage, where the entry says. -/
theorem stagedFiles_at (hin : e.Inward) {stage : Path} {front : List String}
    (hstage : stage = s.settings.buildRoot.within front) : ∀ p ∈ stagedFiles e stage,
      ∃ names, e.Staged names ∧ Descending names ∧
        p = s.settings.buildRoot.within (front ++ names) := by
  intro p hp
  rcases List.mem_append.1 hp with hp | hp
  · obtain ⟨a, ha, rfl⟩ := Option.map_eq_some_iff.1 (Option.mem_toList.1 hp)
    have hdown := hin.archive a ha
    exact ⟨_, .archive ha, hdown.descending_section (by decide), by
      rw [hdown.div_section (by decide), hstage, Path.within_within]⟩
  · split at hp
    · cases hp
    · next hcopies =>
      obtain ⟨h, hh, rfl⟩ := Option.map_eq_some_iff.1 (Option.mem_toList.1 hp)
      have hdown := hin.marker h hh
      exact ⟨_, .marker hh (by simpa using hcopies), hdown.descending_section (by decide), by
        rw [hdown.div_section (by decide), hstage, Path.within_within]⟩

theorem at_of_stagedFiles (hin : e.Inward) {i : Invocation} (hcwd : i.cwd = s.scratchDir e.library)
    (houtputs : ∀ p ∈ i.outputs, p ∈ stagedFiles e (s.stageDir e.library)) :
    i.At s e.library e.PutsOut := by
  refine ⟨hcwd, fun p hp => ?_⟩
  obtain ⟨names, hstaged, hnames, rfl⟩ :=
    stagedFiles_at hin (s.stageDir_eq e.library) p (houtputs p hp)
  exact ⟨"stage" :: names, .staged hstaged, List.cons_ne_nil _ _,
    (show Descending ["stage"] by decide).append hnames, rfl⟩

/-! ## Recipes -/

theorem existingSourceDir_ok {source : Path} (h : s.existingSourceDir t e = .ok source) :
    source = s.sourceDir e := by
  obtain ⟨found, -, h⟩ := except_bind_ok h
  split at h
  · exact (Except.ok.inj h).symm
  · cases h

/-- The files of a selection are files. -/
theorem filesMatching_isFile {dir : Path} {text : String} {files : List Path}
    (h : filesMatching t dir text = .ok files) : ∀ p ∈ files, t.isFile p = true := by
  unfold filesMatching at h
  split at h
  · obtain ⟨paths, -, h⟩ := except_bind_ok (mapError_ok h)
    exact fun p hp => (query_ok (except_of_mem_filterM h hp)).resolve_right nofun
  · cases h

theorem sourceFiles_isFile {source : Path} {files : List Path}
    (h : sourceFiles t e source = .ok files) : ∀ p ∈ files, t.isFile p = true := by
  obtain ⟨found, hfound, h⟩ := except_bind_ok h
  dsimp only at h
  split at h
  · cases h
  · cases h
    intro p hp
    have hmem := List.mem_filter.1 ((List.mergeSort_perm _ _).mem_iff.1 hp)
    obtain ⟨files, hfiles, hin⟩ := List.mem_flatten.1 (List.mem_eraseDups.1 hmem.1)
    obtain ⟨text, -, hmatch⟩ := except_exists_of_mem_mapM hfound hfiles
    exact filesMatching_isFile hmatch p hin

/-- A compilation leaves an object in the directory of objects. -/
theorem compile_at {source file : Path} {flags : List String} (h : t.isFile file = true) :
    (s.compile e source flags file).At s e.library e.PutsOut := by
  have hdown : Path.GoesDown (file.stem ++ ".o") := by
    refine Path.goesDown_of_no_slash ?_ fun hdots => ?_
    · rw [String.toList_append, List.mem_append, not_or]
      exact ⟨fun hslash => no_slash_of_isFile h ((Path.stem_prefix file).subset hslash), by decide⟩
    · have hlast := congrArg List.getLast? (congrArg String.toList hdots)
      rw [String.toList_append, List.getLast?_append] at hlast
      cases hlast
  refine ⟨rfl, fun p hp => ?_⟩
  rw [show (s.compile e source flags file).outputs = [s.objectFile e file] from rfl,
    List.mem_singleton] at hp
  refine ⟨_, .object _, List.cons_ne_nil _ _,
    (show Descending ["obj"] by decide).append hdown.descending, ?_⟩
  rw [hp, objectFile, hdown.div, objectDir_eq, Path.within_within]
  rfl

theorem sourcesRecipe_at (hin : e.Inward) {invocations : List Invocation}
    (h : s.sourcesRecipe t e = .ok invocations) :
    ∀ i ∈ invocations, i.At s e.library e.PutsOut := by
  obtain ⟨source, -, h⟩ := except_bind_ok h
  obtain ⟨files, hfiles, h⟩ := except_bind_ok h
  obtain ⟨own, -, h⟩ := except_bind_ok h
  split at h
  · cases h
  · next name harchive =>
    cases h
    intro i hi
    rcases List.mem_append.1 hi with hi | hi
    · obtain ⟨file, hfile, rfl⟩ := List.mem_map.1 hi
      exact compile_at (sourceFiles_isFile hfiles file hfile)
    · obtain rfl := List.mem_singleton.1 hi
      refine at_of_stagedFiles hin rfl fun p hp => ?_
      obtain rfl := List.mem_singleton.1 hp
      rw [stagedFiles, harchive]
      exact List.mem_append_left _ (List.mem_singleton.2 rfl)

theorem makefileRecipe_at (hin : e.Inward) {invocations : List Invocation}
    (h : s.makefileRecipe t e = .ok invocations) :
    ∀ i ∈ invocations, i.At s e.library e.PutsOut := by
  obtain ⟨source, -, h⟩ := except_bind_ok h
  obtain ⟨own, -, h⟩ := except_bind_ok h
  obtain ⟨embedded, -, h⟩ := except_bind_ok h
  cases h
  intro i hi
  obtain rfl := List.mem_singleton.1 hi
  exact at_of_stagedFiles hin rfl fun p hp => hp

theorem scriptRecipe_at (hin : e.Inward) {invocations : List Invocation}
    (h : s.scriptRecipe t e = .ok invocations) :
    ∀ i ∈ invocations, i.At s e.library e.PutsOut := by
  obtain ⟨source, -, h⟩ := except_bind_ok h
  obtain ⟨own, -, h⟩ := except_bind_ok h
  obtain ⟨cxx, -, h⟩ := except_bind_ok h
  obtain ⟨args, -, h⟩ := except_bind_ok h
  cases h
  intro i hi
  rcases List.mem_cons.1 hi with rfl | hi
  · exact at_of_stagedFiles hin rfl nofun
  · obtain rfl := List.mem_singleton.1 hi
    exact at_of_stagedFiles hin rfl fun p hp => hp

theorem recipeInvocations_at (hin : e.Inward) {invocations : List Invocation}
    (h : s.recipeInvocations t e = .ok invocations) :
    ∀ i ∈ invocations, i.At s e.library e.PutsOut := by
  unfold recipeInvocations at h
  split at h
  · exact sourcesRecipe_at hin h
  · exact makefileRecipe_at hin h
  · exact scriptRecipe_at hin h
  · cases h
    exact nofun
  · cases h

/-! ## Headers -/

/-- Whether a directory of headers and their place below `include` are those that an entry names
among its sources. -/
def FromSources (s : Site) (e : Catalog.Entry) (dir : Path) (place : String) : Prop :=
  ∃ directory, e.publicHeaders = some directory ∧ dir = s.sourceDir e / directory ∧
    place = e.headerPrefix

theorem readyHeaders_ok {directory : String} {plan : HeaderPlan}
    (h : s.readyHeaders t e directory = .ok plan) :
    plan = { library := e.library, invocations := [], headersDir := s.sourceDir e / directory,
             place := e.headerPrefix } := by
  obtain ⟨source, hsource, h⟩ := except_bind_ok h
  obtain rfl := existingSourceDir_ok hsource
  obtain ⟨found, -, h⟩ := except_bind_ok h
  split at h
  · exact (Except.ok.inj h).symm
  · cases h

theorem copiedHeaders_ok {headers : Option HeaderPlan} (h : s.copiedHeaders t e = .ok headers) :
    ∀ plan, headers = some plan → s.FromSources e plan.headersDir plan.place := by
  unfold copiedHeaders at h
  split at h
  · next directory _ hdirectory =>
    rcases hready : s.readyHeaders t e directory with fault | ready
    · rw [hready] at h
      cases h
    · rw [hready] at h
      obtain rfl := readyHeaders_ok hready
      intro plan hplan
      cases h
      cases hplan
      exact ⟨directory, hdirectory, rfl, rfl⟩
  · cases h
    exact nofun

/-! ## Plans -/

/-- Whether a plan builds and installs within the build directory of its library, save for headers
that come from the sources. -/
structure Contains (s : Site) (e : Catalog.Entry) (plan : Plan) : Prop where
  scratchDir : plan.scratchDir = s.scratchDir e.library
  stageDir : plan.stageDir = s.stageDir e.library
  places : ∀ i ∈ plan.invocations, i.At s e.library e.PutsOut
  headers : ∀ h, plan.headers = some h → s.FromSources e h.headersDir h.place

theorem Contains.invocations {plan : Plan} (h : s.Contains e plan) :
    ∀ i ∈ plan.invocations, i.Inside s.settings.buildRoot := fun i hi => inside_of_at (h.places i hi)

/-- Every plan works in the build directory of its library. -/
theorem plan_contains {plan : Plan} (he : s.entry l = .ok e) (hin : e.Inward)
    (h : s.plan t l = .ok plan) : s.Contains e plan := by
  obtain ⟨e', he', h⟩ := except_bind_ok h
  obtain rfl := Except.ok.inj (he.symm.trans he')
  obtain ⟨-, -, h⟩ := except_bind_ok h
  split at h
  · obtain ⟨invocations, hinvocations, h⟩ := except_bind_ok h
    obtain ⟨headers, hheaders, h⟩ := except_bind_ok h
    cases h
    exact ⟨rfl, rfl, recipeInvocations_at hin hinvocations, copiedHeaders_ok hheaders⟩
  · obtain ⟨source, -, h⟩ := except_bind_ok h
    obtain ⟨arguments, -, h⟩ := except_bind_ok h
    obtain ⟨headers, hheaders, h⟩ := except_bind_ok h
    cases h
    refine ⟨rfl, rfl, fun i hi => ?_, copiedHeaders_ok hheaders⟩
    rcases List.mem_cons.1 hi with rfl | hi
    · refine ⟨rfl, fun p hp => ?_⟩
      obtain rfl := List.mem_singleton.1 hp
      refine ⟨_, .configured, List.cons_ne_nil _ _, by decide, ?_⟩
      rw [Path.div_name (by decide), Path.div_name (by decide), scratchDir_eq, Path.within_within,
        Path.within_within]
      rfl
    · obtain rfl := List.mem_singleton.1 hi
      exact at_of_stagedFiles hin rfl fun p hp => hp

/-! ## What is installed -/

/-- The headers that are installed with a library from its sources, with their place below
`include`. -/
def copied (s : Site) (e : Catalog.Entry) : Option (Path × String) :=
  if e.copiesPublicHeaders then
    e.publicHeaders.map fun directory => (s.sourceDir e / directory, e.headerPrefix)
  else none

theorem copiedHeaders_eq {headers : Option HeaderPlan} (h : s.copiedHeaders t e = .ok headers) :
    headers.map (fun plan => (plan.headersDir, plan.place)) = s.copied e := by
  unfold copiedHeaders at h
  unfold copied
  split at h
  · next directory hcopies hdirectory =>
    rcases hready : s.readyHeaders t e directory with fault | ready
    · rw [hready] at h
      cases h
    · rw [hready] at h
      obtain rfl := readyHeaders_ok hready
      cases h
      rw [hcopies, if_pos rfl, hdirectory]
      rfl
  · next hnone =>
    cases h
    split
    · next hcopies =>
      rcases hdirectory : e.publicHeaders with _ | directory
      · rfl
      · exact absurd hdirectory (hnone directory hcopies)
    · rfl

theorem mem_stagedFiles_archive {stage : Path} {a : String} (ha : e.archive = some a) :
    stage / "lib" / a ∈ stagedFiles e stage :=
  List.mem_append_left _ (by simp [ha])

theorem mem_stagedFiles_marker {stage : Path} {h : String} (hh : e.markerHeader = some h)
    (hcopies : e.copiesPublicHeaders = false) : stage / "include" / h ∈ stagedFiles e stage :=
  List.mem_append_right _ (by simp [hh, hcopies])

/-- Whether a plan installs from the sources what an entry says, and expects to be staged what the
build must stage. -/
structure Installs (s : Site) (e : Catalog.Entry) (plan : Plan) : Prop where
  headers : plan.headers.map (fun h => (h.headersDir, h.place)) = s.copied e
  archive : e.StagesArchive → ∀ a, e.archive = some a →
    s.stageDir e.library / "lib" / a ∈ plan.staged
  marker : e.StagesMarker → ∀ h, e.markerHeader = some h →
    s.stageDir e.library / "include" / h ∈ plan.staged

/-- The last invocation of a recipe puts out what must be staged. -/
theorem recipeInvocations_outputs {invocations : List Invocation}
    (h : s.recipeInvocations t e = .ok invocations) :
    (e.recipe ≠ some .headers → ∀ a, e.archive = some a →
      ∃ i, invocations.getLast? = some i ∧ s.stageDir e.library / "lib" / a ∈ i.outputs) ∧
    (e.recipe = some .makefile ∨ e.recipe = some .configureScript →
      ∃ i, invocations.getLast? = some i ∧ i.outputs = stagedFiles e (s.stageDir e.library)) := by
  unfold recipeInvocations at h
  split at h
  · next hrecipe =>
    refine ⟨fun _ a ha => ?_, fun hno => by simp [hrecipe] at hno⟩
    obtain ⟨source, -, h⟩ := except_bind_ok h
    obtain ⟨files, -, h⟩ := except_bind_ok h
    obtain ⟨own, -, h⟩ := except_bind_ok h
    rw [ha] at h
    cases h
    exact ⟨_, List.getLast?_concat, List.mem_singleton_self _⟩
  · obtain ⟨source, -, h⟩ := except_bind_ok h
    obtain ⟨own, -, h⟩ := except_bind_ok h
    obtain ⟨embedded, -, h⟩ := except_bind_ok h
    cases h
    exact ⟨fun _ a ha => ⟨_, rfl, mem_stagedFiles_archive ha⟩, fun _ => ⟨_, rfl, rfl⟩⟩
  · obtain ⟨source, -, h⟩ := except_bind_ok h
    obtain ⟨own, -, h⟩ := except_bind_ok h
    obtain ⟨cxx, -, h⟩ := except_bind_ok h
    obtain ⟨args, -, h⟩ := except_bind_ok h
    cases h
    exact ⟨fun _ a ha => ⟨_, rfl, mem_stagedFiles_archive ha⟩, fun _ => ⟨_, rfl, rfl⟩⟩
  · next hrecipe => exact ⟨fun hno => absurd hrecipe hno, fun hno => by simp [hrecipe] at hno⟩
  · cases h

/-- What the last invocation of a recipe puts out is what the build must stage. -/
theorem recipeInvocations_last {invocations : List Invocation} {i : Invocation}
    (h : s.recipeInvocations t e = .ok invocations) (hi : invocations.getLast? = some i) :
    ∀ p ∈ i.outputs, p ∈ stagedFiles e (s.stageDir e.library) := by
  unfold recipeInvocations at h
  split at h
  · obtain ⟨source, -, h⟩ := except_bind_ok h
    obtain ⟨files, -, h⟩ := except_bind_ok h
    obtain ⟨own, -, h⟩ := except_bind_ok h
    split at h
    · cases h
    · next name harchive =>
      cases h
      obtain rfl := Option.some.inj (List.getLast?_concat.symm.trans hi)
      intro p hp
      obtain rfl := List.mem_singleton.1 hp
      exact mem_stagedFiles_archive harchive
  · obtain ⟨source, -, h⟩ := except_bind_ok h
    obtain ⟨own, -, h⟩ := except_bind_ok h
    obtain ⟨embedded, -, h⟩ := except_bind_ok h
    cases h
    cases hi
    exact fun p hp => hp
  · obtain ⟨source, -, h⟩ := except_bind_ok h
    obtain ⟨own, -, h⟩ := except_bind_ok h
    obtain ⟨cxx, -, h⟩ := except_bind_ok h
    obtain ⟨args, -, h⟩ := except_bind_ok h
    cases h
    cases hi
    exact fun p hp => hp
  · cases h
    cases hi
  · cases h

/-- What a plan must stage is in the stage of its library. -/
theorem plan_staged {plan : Plan} (he : s.entry l = .ok e) (h : s.plan t l = .ok plan) :
    ∀ p ∈ plan.staged, p ∈ stagedFiles e (s.stageDir e.library) := by
  obtain ⟨e', he', h⟩ := except_bind_ok h
  obtain rfl := Except.ok.inj (he.symm.trans he')
  obtain ⟨-, -, h⟩ := except_bind_ok h
  split at h
  · obtain ⟨invocations, hinvocations, h⟩ := except_bind_ok h
    obtain ⟨headers, -, h⟩ := except_bind_ok h
    cases h
    intro p hp
    cases hlast : invocations.getLast? with
    | none => simp [hlast] at hp
    | some i =>
      rw [hlast] at hp
      exact recipeInvocations_last hinvocations hlast p hp
  · obtain ⟨source, -, h⟩ := except_bind_ok h
    obtain ⟨arguments, -, h⟩ := except_bind_ok h
    obtain ⟨headers, -, h⟩ := except_bind_ok h
    cases h
    exact fun p hp => hp

theorem plan_installs {plan : Plan} (he : s.entry l = .ok e) (h : s.plan t l = .ok plan) :
    s.Installs e plan := by
  obtain ⟨e', he', h⟩ := except_bind_ok h
  obtain rfl := Except.ok.inj (he.symm.trans he')
  obtain ⟨-, -, h⟩ := except_bind_ok h
  split at h
  · next hkind =>
    have hnative : e.kind ≠ .configured := by rw [hkind]; decide
    obtain ⟨invocations, hinvocations, h⟩ := except_bind_ok h
    obtain ⟨headers, hheaders, h⟩ := except_bind_ok h
    cases h
    obtain ⟨harchive, hmarker⟩ := recipeInvocations_outputs hinvocations
    refine ⟨copiedHeaders_eq hheaders, fun hstages a ha => ?_, fun ⟨hcopies, hstages⟩ h hh => ?_⟩
    · obtain ⟨i, hi, hmem⟩ := harchive (hstages.resolve_left hnative) a ha
      show _ ∈ (invocations.getLast?.map Invocation.outputs).getD []
      rw [hi]
      exact hmem
    · obtain ⟨i, hi, houtputs⟩ := hmarker (hstages.resolve_left hnative)
      show _ ∈ (invocations.getLast?.map Invocation.outputs).getD []
      rw [hi, Option.map_some, Option.getD_some, houtputs]
      exact mem_stagedFiles_marker hh hcopies
  · obtain ⟨source, -, h⟩ := except_bind_ok h
    obtain ⟨arguments, -, h⟩ := except_bind_ok h
    obtain ⟨headers, hheaders, h⟩ := except_bind_ok h
    cases h
    exact ⟨copiedHeaders_eq hheaders, fun _ a ha => mem_stagedFiles_archive ha,
      fun hstages h hh => mem_stagedFiles_marker hh hstages.1⟩

/-! ## Headers that are provided -/

/-- Whether headers that are provided come from the sources of an entry, or from the build directory
of its library. -/
def ProvidesFrom (s : Site) (e : Catalog.Entry) (dir : Path) (place : String) : Prop :=
  s.FromSources e dir place ∨ (dir = s.headerStageDir e.library / "include" ∧ place = "")

/-- A header plan works in the build directory of its library. -/
theorem headerPlan_contains {plan : HeaderPlan} (he : s.entry l = .ok e) (hin : e.Inward)
    (h : s.headerPlan t l = .ok plan) :
    (∀ i ∈ plan.invocations, i.At s e.library e.PutsHeaders) ∧
      s.ProvidesFrom e plan.headersDir plan.place := by
  obtain ⟨e', he', h⟩ := except_bind_ok h
  obtain rfl := Except.ok.inj (he.symm.trans he')
  split at h
  · next directory hdirectory =>
    obtain rfl := readyHeaders_ok h
    exact ⟨nofun, .inl ⟨directory, hdirectory, rfl, rfl⟩⟩
  · obtain ⟨source, -, h⟩ := except_bind_ok h
    cases h
    refine ⟨fun i hi => ?_, .inr ⟨rfl, rfl⟩⟩
    obtain rfl := List.mem_singleton.1 hi
    refine ⟨rfl, fun p hp => ?_⟩
    obtain ⟨marker, hmarker, rfl⟩ := Option.map_eq_some_iff.1 (Option.mem_toList.1 hp)
    have hdown := hin.marker marker hmarker
    refine ⟨_, ⟨marker, hmarker, rfl⟩, List.cons_ne_nil _ _,
      (show Descending ["headers"] by decide).append
        (hdown.descending_section (by decide)), ?_⟩
    rw [hdown.div_section (by decide), headerStageDir_eq, Path.within_within]
    rfl
  · cases h
  · cases h

end Site

end Sysroot

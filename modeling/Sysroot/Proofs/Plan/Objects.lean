import Sysroot.Proofs.Catalog.Order
import Sysroot.Proofs.Install.Owners
import Sysroot.Proofs.Plan.Places

/-!
# The objects of a library

The sources of a library are the files that its patterns lead to (`Tree.Leads`), without those that it
excludes by name (`Site.mem_sourceFiles`).  Each is compiled once, in order, to an object that is named
after the stem of the source alone.  So the objects are distinct, and the archive takes each of them
once, exactly if no two sources have the same stem (`Site.plan_sources`); otherwise a compilation
overwrites the object of another one.
-/

namespace Sysroot

open Effect Sysroot.Tree

namespace Effect

variable {ε α : Type}

/-- What is kept is what passed the test, when all could be tested. -/
theorem except_mem_filterM {f : α → Except ε Bool} {as kept : List α} (h : as.filterM f = .ok kept)
    {a : α} : a ∈ kept ↔ a ∈ as ∧ f a = .ok true := by
  have haux : ∀ (as before kept : List α), as.filterAuxM f before = .ok kept →
      (a ∈ kept ↔ a ∈ as ∧ f a = .ok true ∨ a ∈ before) := by
    intro as
    induction as with
    | nil =>
      intro before kept h
      cases h
      simp
    | cons a' as ih =>
      intro before kept h
      obtain ⟨passed, hpassed, h⟩ := except_bind_ok h
      rw [ih _ kept h, List.mem_cons]
      by_cases heq : a = a'
      · subst heq
        cases passed <;> simp [hpassed]
      · cases passed <;> simp [heq]
  obtain ⟨reversed, hreversed, h⟩ := except_bind_ok h
  cases h
  rw [List.mem_reverse, haux as [] reversed hreversed, or_iff_left List.not_mem_nil]

end Effect

namespace Tree

variable {t : Tree} {dirsOnly : Bool} {dir p q : Path} {cs : List Pattern.Component} {text : String}
  {files : List Path}

/-! ## What a pattern selects -/

/-- Whether the components of a pattern lead from a path to another one.  On the way there are
directories; at the end there may be anything, unless the pattern asks for a directory. -/
inductive Leads (t : Tree) (dirsOnly : Bool) : Path → List Pattern.Component → Path → Prop
  | here (p : Path) : Leads t dirsOnly p [] p
  /-- A name leads to what has it. -/
  | exact {p q : Path} {name : String} {rest : List Pattern.Component}
      (there : rest = [] ∧ dirsOnly = false ∧ t.holds (p.within [name]) = true ∨
        t.isDir (p.within [name]) = true)
      (onward : Leads t dirsOnly (p.within [name]) rest q) : Leads t dirsOnly p (.exact name :: rest) q
  /-- A wild component leads to everything in the directory whose name matches. -/
  | wild {p q : Path} {text name : String} {rest : List Pattern.Component} (listed : name ∈ t.list p)
      (fits : Pattern.matchName text name = true)
      (there : rest = [] ∧ dirsOnly = false ∨ t.isDir (p.within [name]) = true)
      (onward : Leads t dirsOnly (p.within [name]) rest q) : Leads t dirsOnly p (.wild text :: rest) q
  /-- Two stars lead to the directory itself and to those below it. -/
  | descend {p d q : Path} {rest : List Pattern.Component} (below : d ∈ t.dirsUnder p)
      (onward : Leads t dirsOnly d rest q) : Leads t dirsOnly p (.descend :: rest) q

/-- Whether a pattern leads from a directory to a path. -/
def Selects (t : Tree) (dir : Path) (text : String) (p : Path) : Prop :=
  ∃ pattern, Pattern.read text = .ok pattern ∧ Leads t pattern.dirsOnly dir pattern.components p

/-- The answer to a question about what is at a path, when one can ask. -/
theorem query_eq {answer : Tree → Path → Bool} {b : Bool} (h : t.query p answer = .ok b)
    (hanswer : t.node? p = none → answer t p = false) : answer t p = b := by
  unfold query at h
  split at h
  · next hlong =>
    rw [hanswer (by rw [node?, hlong])]
    split at h
    · exact Except.ok.inj h
    · cases h
  · exact Except.ok.inj h

theorem query_holds {b : Bool} (h : t.query p holds = .ok b) : t.holds p = b :=
  query_eq h fun hnone => by rw [holds, hnone]; rfl

theorem query_isDir {b : Bool} (h : t.query p isDir = .ok b) : t.isDir p = b :=
  query_eq h fun hnone => by rw [isDir, hnone]; rfl

theorem query_isFile {b : Bool} (h : t.query p isFile = .ok b) : t.isFile p = b :=
  query_eq h fun hnone => by rw [isFile, hnone]

theorem holds_of_isDir (h : t.isDir p = true) : t.holds p = true := by
  have hdir : t.node? p = some .dir := of_decide_eq_true h
  rw [holds, hdir]
  rfl

/-- For one name in a directory, a wild component selects what is found from there when the name matches
and one can go on there, and nothing otherwise. -/
theorem wildStep_ok {onward : Except SystemError (List Path)} {leaf matched : Bool} {paths : List Path}
    (h : (do if (← if leaf then pure true else t.query p isDir) && matched then onward else return []) =
      .ok paths) :
    if matched = true ∧ (leaf = true ∨ t.isDir p = true) then onward = .ok paths else paths = [] := by
  have hgo : ∀ there, (there = true ↔ leaf = true ∨ t.isDir p = true) →
      (if (there && matched) = true then onward else pure []) = .ok paths →
      if matched = true ∧ (leaf = true ∨ t.isDir p = true) then onward = .ok paths else paths = [] := by
    intro there hthere h
    have hiff : (there && matched) = true ↔ matched = true ∧ (leaf = true ∨ t.isDir p = true) := by
      rw [Bool.and_eq_true, and_comm, hthere]
    split at h
    · next hboth => rwa [if_pos (hiff.1 hboth)]
    · next hno =>
      cases h
      rw [if_neg (mt hiff.2 hno)]
  cases leaf with
  | true => exact hgo true (by simp) h
  | false =>
    obtain ⟨there, hquery, h⟩ := except_bind_ok h
    exact hgo there (by simp [query_isDir hquery]) h

/-- What is selected from a path is what the components lead to. -/
theorem mem_selectFrom {paths : List Path} (h : selectFrom t dirsOnly p cs = .ok paths) :
    q ∈ paths ↔ Leads t dirsOnly p cs q := by
  induction cs generalizing p paths with
  | nil =>
    cases h
    rw [List.mem_singleton]
    exact ⟨fun heq => heq ▸ .here q, fun hleads => by cases hleads; rfl⟩
  | cons c rest ih =>
    unfold selectFrom at h
    cases c with
    | exact name =>
      obtain ⟨there, hquery, h⟩ := except_bind_ok h
      have hiff : there = true ↔ rest = [] ∧ dirsOnly = false ∧ t.holds (p.within [name]) = true ∨
          t.isDir (p.within [name]) = true := by
        by_cases hleaf : rest = [] ∧ dirsOnly = false
        · obtain ⟨rfl, rfl⟩ := hleaf
          rw [← query_holds (p := p.within [name]) hquery]
          simpa using holds_of_isDir
        · have hdir : t.query (p.within [name]) isDir = .ok there := by
            rw [← hquery, if_neg (by simpa using hleaf)]
            rfl
          rw [query_isDir hdir, or_iff_right fun hno => hleaf ⟨hno.1, hno.2.1⟩]
      cases there with
      | true =>
        rw [ih (p := p.within [name]) h]
        exact ⟨.exact (hiff.1 rfl), fun hleads => by cases hleads; assumption⟩
      | false =>
        cases h
        refine ⟨fun hq => absurd hq List.not_mem_nil, fun hleads => ?_⟩
        cases hleads with
        | exact hthere _ => exact absurd (hiff.2 hthere) Bool.false_ne_true
    | wild text =>
      obtain ⟨found, hfound, h⟩ := except_bind_ok h
      cases h
      rw [List.mem_flatten]
      constructor
      · rintro ⟨part, hpart, hq⟩
        obtain ⟨name, hname, hone⟩ := except_exists_of_mem_mapM hfound hpart
        have hstep := wildStep_ok hone
        split at hstep
        · next hgo =>
          refine .wild hname hgo.1 (hgo.2.imp_left fun hleaf => ?_) ((ih hstep).1 hq)
          simpa using hleaf
        · rw [hstep] at hq
          cases hq
      · intro hleads
        cases hleads with
        | wild hname hmatch hthere honward =>
          obtain ⟨part, hpart, hone⟩ := except_mem_of_mapM hfound hname
          have hstep := wildStep_ok hone
          rw [if_pos ⟨hmatch, hthere.imp_left fun hleaf => by simpa using hleaf⟩] at hstep
          exact ⟨part, hpart, (ih hstep).2 honward⟩
    | descend =>
      obtain ⟨found, hfound, rfl⟩ : ∃ found, (t.dirsUnder p).mapM (fun d => selectFrom t dirsOnly d rest) =
          .ok found ∧ found.flatten = paths := by
        rcases hfound : (t.dirsUnder p).mapM fun d => selectFrom t dirsOnly d rest with e | found
        · simp only [hfound] at h
          cases h
        · simp only [hfound] at h
          exact ⟨found, rfl, Except.ok.inj h⟩
      rw [List.mem_flatten]
      constructor
      · rintro ⟨part, hpart, hq⟩
        obtain ⟨d, hd, hone⟩ := except_exists_of_mem_mapM hfound hpart
        exact .descend hd ((ih hone).1 hq)
      · intro hleads
        cases hleads with
        | descend hd honward =>
          obtain ⟨part, hpart, hone⟩ := except_mem_of_mapM hfound hd
          exact ⟨part, hpart, (ih hone).2 honward⟩

/-- The files that match a pattern are the files that it leads to. -/
theorem mem_select_iff {pattern : Pattern} (hdir : t.isDir dir = true)
    (h : t.select dir pattern = .ok files) :
    p ∈ files ↔ Leads t pattern.dirsOnly dir pattern.components p := by
  obtain ⟨there, hquery, h⟩ := except_bind_ok h
  obtain rfl : there = true := (query_isDir hquery).symm.trans hdir
  obtain ⟨found, hfound, h⟩ := except_bind_ok h
  cases h
  rw [Path.sort, List.mem_mergeSort, List.mem_eraseDups, mem_selectFrom hfound]

end Tree

namespace Path

variable {root : Path} {a b : String}

/-- Paths in one directory differ in their texts if they do in their names. -/
theorem text_within_injective (h : (root.within [a]).text = (root.within [b]).text) : a = b := by
  have htext : ∀ c : String, (root.within [c]).text =
      root.anchor.text ++ Text.join "/" (root.parts ++ [c]) := by
    intro c
    rw [within, text]
    split
    · next hparts => exact absurd hparts (by simp)
    · rfl
  rw [htext, htext, String.append_right_inj] at h
  by_cases hroot : root.parts = []
  · rwa [hroot, List.nil_append, List.nil_append, Text.join, Text.join, String.intercalate_singleton,
      String.intercalate_singleton] at h
  · rwa [Text.join, Text.join, String.intercalate_append_of_ne_nil hroot (List.cons_ne_nil _ _),
      String.intercalate_append_of_ne_nil hroot (List.cons_ne_nil _ _), String.intercalate_singleton,
      String.intercalate_singleton, String.append_right_inj] at h

/-- A text without a slash that is neither empty nor a dot is a component. -/
theorem parts_of_no_slash {text : String} (hslash : '/' ∉ text.toList) (hne : text ≠ "")
    (hdot : text ≠ ".") : (ofText text).parts = [text] := by
  show partsOfText text.toList = _
  rw [partsOfText, partsAt_of_not_mem hslash, List.filter_cons_of_pos, List.filter_nil,
    List.map_singleton, String.ofList_toList]
  rw [decide_eq_true_eq]
  exact ⟨by simpa using hne, fun heq => hdot (by rw [← String.ofList_toList (s := text), heq])⟩

end Path

namespace Site

variable {s : Site} {t : Tree} {e : Catalog.Entry} {l : Library} {plan : Plan} {file file' : Path}

/-! ## The sources -/

/-- Whether a path is a source of a library: a file that one of the patterns leads to and that is not
excluded by its name. -/
def IsSource (s : Site) (t : Tree) (e : Catalog.Entry) (file : Path) : Prop :=
  (∃ text ∈ e.sources, t.Selects (s.sourceDir e) text file) ∧ t.isFile file = true ∧
    file.name ∉ e.exclude

theorem mem_filesMatching {dir : Path} {text : String} {files : List Path} (hdir : t.isDir dir = true)
    (h : filesMatching t dir text = .ok files) :
    file ∈ files ↔ t.Selects dir text file ∧ t.isFile file = true := by
  unfold filesMatching at h
  split at h
  · next pattern hpattern =>
    obtain ⟨paths, hselect, h⟩ := except_bind_ok (mapError_ok h)
    have hmem : file ∈ paths ↔ t.Selects dir text file := by
      rw [mem_select_iff hdir hselect]
      refine ⟨fun hleads => ⟨pattern, hpattern, hleads⟩, fun ⟨pattern', hpattern', hleads⟩ => ?_⟩
      cases hpattern.symm.trans hpattern'
      exact hleads
    rw [← hmem, except_mem_filterM h]
    refine and_congr_right fun hpath => ⟨query_isFile, fun hfile => ?_⟩
    rw [query_eq_ok (fun hlong => ?_), hfile]
    rw [isFile, node?, hlong] at hfile
    cases hfile
  · cases h

/-- The files to compile are the sources, each once and in order. -/
theorem mem_sourceFiles {files : List Path} (hdir : t.isDir (s.sourceDir e) = true)
    (h : sourceFiles t e (s.sourceDir e) = .ok files) :
    (∀ file, file ∈ files ↔ s.IsSource t e file) ∧ files.Nodup ∧
      files.Pairwise (fun p q => p.le q = true) ∧ files ≠ [] := by
  obtain ⟨found, hfound, h⟩ := except_bind_ok h
  dsimp only at h
  split at h
  · cases h
  · next hne =>
    cases h
    refine ⟨fun file => ?_, ?_, Path.sort_pairwise _, hne⟩
    · have hmem : file ∈ found.flatten ↔
          (∃ text ∈ e.sources, t.Selects (s.sourceDir e) text file) ∧ t.isFile file = true := by
        rw [List.mem_flatten]
        constructor
        · rintro ⟨part, hpart, hfile⟩
          obtain ⟨text, htext, hmatch⟩ := except_exists_of_mem_mapM hfound hpart
          obtain ⟨hselects, hisFile⟩ := (mem_filesMatching hdir hmatch).1 hfile
          exact ⟨⟨text, htext, hselects⟩, hisFile⟩
        · rintro ⟨⟨text, htext, hselects⟩, hisFile⟩
          obtain ⟨part, hpart, hmatch⟩ := except_mem_of_mapM hfound htext
          exact ⟨part, hpart, (mem_filesMatching hdir hmatch).2 ⟨hselects, hisFile⟩⟩
      rw [Path.sort, List.mem_mergeSort, List.mem_filter, List.mem_eraseDups, hmem, IsSource, and_assoc,
        decide_eq_true_iff]
    · exact (List.mergeSort_perm _ _).nodup_iff.2 ((Catalog.nodup_eraseDups _).filter _)

/-! ## The objects -/

/-- The object of a source is in the directory of objects, under the stem of its name. -/
theorem objectFile_eq (h : t.isFile file = true) :
    s.objectFile e file = (s.objectDir e.library).within [file.stem ++ ".o"] := by
  have hslash : '/' ∉ (file.stem ++ ".o").toList := by
    rw [String.toList_append, List.mem_append, not_or]
    exact ⟨fun hslash => no_slash_of_isFile h ((Path.stem_prefix file).subset hslash), by decide⟩
  have hlast : ∀ text : String, file.stem ++ ".o" = text → text.toList.getLast? = some 'o' := by
    rintro text rfl
    rw [String.toList_append, List.getLast?_append]
    rfl
  have hdown := Path.goesDown_of_no_slash hslash fun heq => absurd (hlast _ heq) (by decide)
  rw [objectFile, hdown.div, Path.parts_of_no_slash hslash (fun heq => absurd (hlast _ heq) (by decide))
    fun heq => absurd (hlast _ heq) (by decide)]

/-- Sources share the text of an object exactly if their stems are the same. -/
theorem objectFile_text_eq_iff (h : t.isFile file = true) (h' : t.isFile file' = true) :
    (s.objectFile e file).text = (s.objectFile e file').text ↔ file.stem = file'.stem := by
  rw [objectFile_eq h, objectFile_eq h']
  refine ⟨fun heq => ?_, fun heq => by rw [heq]⟩
  exact (String.append_left_inj _).1 (Path.text_within_injective heq)

theorem objectFile_eq_iff (h : t.isFile file = true) (h' : t.isFile file' = true) :
    s.objectFile e file = s.objectFile e file' ↔ file.stem = file'.stem :=
  ⟨fun heq => (objectFile_text_eq_iff h h').1 (congrArg Path.text heq), fun heq => by
    rw [objectFile_eq h, objectFile_eq h', heq]⟩

/-- Whether the names of no two sources of a library have the same stem. -/
def DistinctStems (s : Site) (t : Tree) (e : Catalog.Entry) : Prop :=
  ∀ file file', s.IsSource t e file → s.IsSource t e file' → file.stem = file'.stem → file = file'

/-- The objects of the sources differ, as paths and as texts, exactly if the stems of the sources do. -/
theorem nodup_objects_iff {files : List Path} (hfiles : ∀ file, file ∈ files ↔ s.IsSource t e file)
    (hnodup : files.Nodup) :
    ((files.map (s.objectFile e)).Nodup ↔ s.DistinctStems t e) ∧
      ((files.map fun file => (s.objectFile e file).text).Nodup ↔ s.DistinctStems t e) := by
  have hfile : ∀ {file}, file ∈ files → t.isFile file = true := fun hmem => ((hfiles _).1 hmem).2.1
  have hiff : ∀ {β : Type} (f : Path → β), (∀ file ∈ files, ∀ file' ∈ files,
      (f file = f file' ↔ file.stem = file'.stem)) → ((files.map f).Nodup ↔ s.DistinctStems t e) := by
    intro β f hf
    rw [List.nodup_map_iff_inj_on hnodup]
    simp only [DistinctStems, ← hfiles]
    constructor
    · intro h file file' hmem hmem' heq
      exact h file hmem file' hmem' ((hf file hmem file' hmem').2 heq)
    · intro h file hmem file' hmem' heq
      exact h file file' hmem hmem' ((hf file hmem file' hmem').1 heq)
  exact ⟨hiff _ fun file hmem file' hmem' => objectFile_eq_iff (hfile hmem) (hfile hmem'),
    hiff _ fun file hmem file' hmem' => objectFile_text_eq_iff (hfile hmem) (hfile hmem')⟩

/-- What runs by the plan of a library with a build of its own is what its recipe says. -/
theorem recipeInvocations_of_plan (he : s.entry l = .ok e) (hkind : e.kind = .native)
    (h : s.plan t l = .ok plan) : s.recipeInvocations t e = .ok plan.invocations := by
  obtain ⟨e', he', h⟩ := except_bind_ok h
  obtain rfl := Except.ok.inj (he.symm.trans he')
  obtain ⟨⟨⟩, -, h⟩ := except_bind_ok h
  rw [hkind] at h
  obtain ⟨invocations, hinvocations, h⟩ := except_bind_ok h
  obtain ⟨headers, -, h⟩ := except_bind_ok h
  cases h
  exact hinvocations

/-- A library that is built from sources has its sources compiled and the objects archived. -/
theorem sourcesRecipe_ok {invocations : List Invocation} (h : s.sourcesRecipe t e = .ok invocations) :
    ∃ (files : List Path) (flags : List String) (archiving : Invocation) (name : String),
      sourceFiles t e (s.sourceDir e) = .ok files ∧ t.isDir (s.sourceDir e) = true ∧
      invocations = files.map (s.compile e (s.sourceDir e) flags) ++ [archiving] ∧
      e.archive = some name ∧ archiving.tool = .ar ∧
      archiving.outputs = [s.stageDir e.library / "lib" / name] ∧
      archiving.args = ["rcs", (s.stageDir e.library / "lib" / name).text] ++
        files.map fun file => (s.objectFile e file).text := by
  obtain ⟨source, hsource, h⟩ := except_bind_ok h
  obtain rfl := existingSourceDir_ok hsource
  obtain ⟨files, hfiles, h⟩ := except_bind_ok h
  obtain ⟨own, -, h⟩ := except_bind_ok h
  have hdir : t.isDir (s.sourceDir e) = true := by
    obtain ⟨there, hquery, hthere⟩ := except_bind_ok hsource
    cases there with
    | true => exact query_isDir (mapError_ok hquery)
    | false => cases hthere
  split at h
  · cases h
  · next name hname =>
    exact ⟨files, _, _, name, hfiles, hdir, (Except.ok.inj h).symm, hname, rfl, rfl, rfl⟩

/-- The plan of a library that is built from sources compiles each of its sources once, in the order of
their paths, and archives the objects in the same order.  No compilation overwrites the object of
another one, and each object is archived once, exactly if the stems of the sources are distinct. -/
theorem plan_sources (he : s.entry l = .ok e) (hkind : e.kind = .native)
    (hrecipe : e.recipe = some .sources) (h : s.plan t l = .ok plan) :
    ∃ (files : List Path) (flags : List String) (archiving : Invocation) (archive : Path),
      plan.invocations = files.map (s.compile e (s.sourceDir e) flags) ++ [archiving] ∧
      (∀ file, file ∈ files ↔ s.IsSource t e file) ∧ files.Nodup ∧
      files.Pairwise (fun p q => p.le q = true) ∧ files ≠ [] ∧
      archiving.tool = .ar ∧ archiving.outputs = [archive] ∧
      archiving.args = ["rcs", archive.text] ++ files.map (fun file => (s.objectFile e file).text) ∧
      ((files.map (s.objectFile e)).Nodup ↔ s.DistinctStems t e) ∧
      ((files.map fun file => (s.objectFile e file).text).Nodup ↔ s.DistinctStems t e) := by
  have hinvocations := recipeInvocations_of_plan he hkind h
  rw [recipeInvocations, hrecipe] at hinvocations
  obtain ⟨files, flags, archiving, name, hfiles, hdir, hall, -, htool, houtputs, hargs⟩ :=
    sourcesRecipe_ok hinvocations
  obtain ⟨hmem, hnodup, hsorted, hne⟩ := mem_sourceFiles hdir hfiles
  obtain ⟨hobjects, htexts⟩ := nodup_objects_iff (s := s) hmem hnodup
  exact ⟨files, flags, archiving, _, hall, hmem, hnodup, hsorted, hne, htool, houtputs, hargs, hobjects,
    htexts⟩

/-- A source file. -/
def oneSource : Tree where
  entries := [(["src"], .dir), (["src", "x.c"], .file [1] false)]
  nodup := by decide
  root_free := by decide
  housed := by decide
  named := by decide +kernel
  home := []

/-- A site with a library that two patterns lead to the same source. -/
def twoPatterns : Site where
  settings := { sourcesDir := ⟨.root, []⟩, buildRoot := ⟨.root, ["b"]⟩, sysrootDir := ⟨.root, ["s"]⟩ }
  toolchain :=
    { triple := ⟨"wasm32", "unknown", "unknown", none⟩, compiler := ⟨.root, ["cc"]⟩,
      linker := ⟨.root, ["ld"]⟩, archiver := ⟨.root, ["ar"]⟩ }
  root := ⟨.root, ["s"]⟩
  catalog := .ofList [(.compat,
    { library := .compat, role := "", kind := .native, recipe := some .sources, source := "src",
      archive := "libx.a", sources := ["*.c", "**/x.*"] })]

theorem plan_sources_twoPatterns : ∃ (plan : Plan) (files : List Path),
    twoPatterns.plan oneSource .compat = .ok plan ∧ plan.invocations.length = files.length + 1 ∧
      files.Nodup ∧ ∀ file ∈ files, oneSource.isFile file = true := by
  have hok : (twoPatterns.plan oneSource .compat).toOption.isSome = true := by decide +kernel
  rcases hplan : twoPatterns.plan oneSource .compat with e | plan
  · rw [hplan] at hok
    cases hok
  obtain ⟨files, flags, archiving, archive, hinvocations, hmem, hnodup, -⟩ :=
    plan_sources (e := (twoPatterns.catalog.find? .compat).get (by decide +kernel)) rfl rfl rfl hplan
  refine ⟨plan, files, rfl, ?_, hnodup, fun file hfile => ((hmem file).1 hfile).2.1⟩
  rw [hinvocations, List.length_append, List.length_map, List.length_singleton]

end Site

end Sysroot

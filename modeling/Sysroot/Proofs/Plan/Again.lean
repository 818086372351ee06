import Sysroot.Proofs.Install.Contents
import Sysroot.Proofs.Plan.Escapes
import Sysroot.Proofs.Plan.Objects
import Sysroot.Proofs.Plan.Prerequisites
import Sysroot.Proofs.Tree.Alike

/-!
# Planning again

A plan reads the sources of its library, the objects that go into its archive and, below the
sysroot, whether the headers and archives of its prerequisites are there.  A later tree that answers
the questions about the sources and the objects as before, and still has those headers and archives,
gives the library the same plan (`Site.plan_again`).  Trees that are alike below the directory of
sources answer alike what is asked about the sources of an entry that names only what is below it
(`Catalog.Entry.Downward`).
-/

namespace Sysroot

open Effect Sysroot.Tree Sysroot.Install

variable {s : Site} {t t' : Tree} {e : Catalog.Entry} {l : Library} {plan : Plan} {dir p : Path}
  {L : Location} {text : String}

/-! ## Sources below a directory -/

/-- Whether what an entry names as its sources is below the directory of sources: its own directory, the
one of its public headers, and what its patterns lead to. -/
structure Catalog.Entry.Downward (e : Catalog.Entry) : Prop where
  source : Path.GoesDown e.source
  headers : ∀ directory, e.publicHeaders = some directory → Path.GoesDown directory
  patterns : ∀ text ∈ e.sources, Path.GoesDown text

/-- The names in a pattern that goes down go down. -/
theorem Pattern.descending_of_read {pattern : Pattern} (h : Path.GoesDown text)
    (hread : read text = .ok pattern) :
    ∀ name, .exact name ∈ pattern.components → Descending [name] := by
  intro name hname
  have hcomponents : pattern.components = (Path.ofText text).parts.map componentOf := by
    unfold read at hread
    dsimp only at hread
    repeat' split at hread
    all_goals cases hread
    rfl
  rw [hcomponents] at hname
  obtain ⟨part, hpart, heq⟩ := List.mem_map.1 hname
  unfold componentOf at heq
  repeat' split at heq
  all_goals cases heq
  exact List.forall_mem_singleton.2 (h.descending _ hpart)

namespace Tree

/-- What components that go down lead to goes down. -/
theorem Leads.exists_within {dirsOnly : Bool} {cs : List Pattern.Component}
    (h : Leads t dirsOnly dir cs p) (hcs : ∀ name, .exact name ∈ cs → Descending [name]) :
    ∃ more, p = dir.within more ∧ Descending more := by
  -- what goes down from a place below the directory goes down from the directory
  have honward : ∀ {dir p : Path} {first : List String}, Descending first →
      (∃ more, p = (dir.within first).within more ∧ Descending more) →
      ∃ more, p = dir.within more ∧ Descending more := by
    rintro dir p first hfirst ⟨more, rfl, hmore⟩
    exact ⟨first ++ more, Path.within_within, hfirst.append hmore⟩
  induction h with
  | here p => exact ⟨[], Path.within_nil.symm, nofun⟩
  | exact _ _ ih =>
    exact honward (hcs _ List.mem_cons_self) (ih fun name hname => hcs name (List.mem_cons_of_mem _ hname))
  | wild listed _ _ _ ih =>
    exact honward (Plain.descending (List.forall_mem_singleton.2 (isName_of_mem_list listed)))
      (ih fun name hname => hcs name (List.mem_cons_of_mem _ hname))
  | descend below _ ih =>
    obtain ⟨first, rfl, hfirst⟩ := exists_of_mem_dirsUnder below
    exact honward hfirst (ih fun name hname => hcs name (List.mem_cons_of_mem _ hname))

/-- What a pattern that goes down selects goes down. -/
theorem exists_of_mem_select {pattern : Pattern} {paths : List Path}
    (hpattern : ∀ name, .exact name ∈ pattern.components → Descending [name])
    (h : t.select dir pattern = .ok paths) (hp : p ∈ paths) :
    ∃ more, p = dir.within more ∧ Descending more := by
  have hdir := query_isDir (select_ne_nil h (List.ne_nil_of_mem hp))
  exact ((mem_select_iff hdir h).1 hp).exists_within hpattern

/-- The files that match a pattern that goes down are the same in trees that are alike. -/
theorem Alike.filesMatching (h : Alike dir L t t') (htext : Path.GoesDown text) :
    Site.filesMatching t' dir text = Site.filesMatching t dir text := by
  unfold Site.filesMatching
  split
  · next pattern hread =>
    have hpattern := Pattern.descending_of_read htext hread
    rw [h.select hpattern]
    rcases hselect : t.select dir pattern with fault | paths
    · rfl
    · refine congrArg Fault.ofAnswer (except_filterM_congr fun p hp => ?_)
      obtain ⟨more, rfl, hmore⟩ := exists_of_mem_select hpattern hselect hp
      exact (h.within hmore).query (h.within hmore).isFile
  · rfl

end Tree

/-- The places below the sysroot of the files without which an entry of a catalog is not planned: the
marker headers of its prerequisites, and the archives of those that must be built. -/
inductive Catalog.ReliesOn (c : Catalog) (e : Catalog.Entry) : List String → Prop
  | header {d : Library} {e' : Catalog.Entry} {m : String} (hd : d ∈ e.requires ++ e.headerRequires)
      (he : c.find? d = some e') (hm : e'.markerHeader = some m) :
      ReliesOn c e ("include" :: (Path.ofText m).parts)
  | archive {d : Library} {e' : Catalog.Entry} {a : String} (hd : d ∈ e.requires)
      (he : c.find? d = some e') (ha : e'.archive = some a) : ReliesOn c e ("lib" :: (Path.ofText a).parts)

namespace Site

/-- Whether two trees answer alike what the plan of an entry asks about its sources. -/
structure SameSourceAnswers (s : Site) (e : Catalog.Entry) (t t' : Tree) : Prop where
  source : t'.query (s.sourceDir e) Tree.isDir = t.query (s.sourceDir e) Tree.isDir
  headers : ∀ directory, e.publicHeaders = some directory →
    t'.query (s.sourceDir e / directory) Tree.isDir = t.query (s.sourceDir e / directory) Tree.isDir
  files : ∀ text ∈ e.sources,
    filesMatching t' (s.sourceDir e) text = filesMatching t (s.sourceDir e) text

/-- Whether two trees answer alike what the plan of an entry asks about sources and objects. -/
structure SameAnswers (s : Site) (e : Catalog.Entry) (t t' : Tree) : Prop
    extends s.SameSourceAnswers e t t' where
  objects : ∀ d ∈ e.embedObjects, t'.select (s.objectDir d) ⟨[.wild "*.o"], false⟩ =
    t.select (s.objectDir d) ⟨[.wild "*.o"], false⟩

/-- Trees that are alike below the directory of sources answer alike what the plan of an entry asks about
these. -/
theorem sameSourceAnswers_of_alike (h : Alike s.settings.sourcesDir L t t') (he : e.Downward) :
    s.SameSourceAnswers e t t' := by
  have hsource : Alike (s.sourceDir e) (L ++ (Path.ofText e.source).parts) t t' := by
    rw [sourceDir, he.source.div]
    exact h.within he.source.descending
  refine ⟨hsource.query hsource.isDir, fun directory hdirectory => ?_,
    fun text htext => hsource.filesMatching (he.patterns text htext)⟩
  have hheaders := hsource.within (he.headers directory hdirectory).descending
  rw [← (he.headers directory hdirectory).div] at hheaders
  exact hheaders.query hheaders.isDir

namespace SameAnswers

variable (h : s.SameAnswers e t t')
include h

theorem existingSourceDir : s.existingSourceDir t' e = s.existingSourceDir t e := by
  unfold Site.existingSourceDir
  dsimp only
  rw [h.source]

theorem sourceFiles : sourceFiles t' e (s.sourceDir e) = sourceFiles t e (s.sourceDir e) := by
  unfold Site.sourceFiles
  rw [except_mapM_congr h.files]

theorem embeddedObjects : s.embeddedObjects t' e = s.embeddedObjects t e := by
  unfold Site.embeddedObjects
  refine congrArg (· >>= fun found => pure found.flatten) (except_mapM_congr fun d hd => ?_)
  dsimp only
  rw [h.objects d hd]

theorem copiedHeaders : s.copiedHeaders t' e = s.copiedHeaders t e := by
  unfold Site.copiedHeaders
  split
  · next directory _ hdirectory =>
    unfold Site.readyHeaders
    rw [h.existingSourceDir]
    cases hsource : s.existingSourceDir t e with
    | error fault => rfl
    | ok source =>
      obtain rfl := existingSourceDir_ok hsource
      rw [except_ok_bind, except_ok_bind]
      dsimp only
      rw [h.headers directory hdirectory]
  · rfl

theorem sourcesRecipe : s.sourcesRecipe t' e = s.sourcesRecipe t e := by
  unfold Site.sourcesRecipe
  rw [h.existingSourceDir]
  cases hsource : s.existingSourceDir t e with
  | error fault => rfl
  | ok source =>
    obtain rfl := existingSourceDir_ok hsource
    rw [except_ok_bind, except_ok_bind, h.sourceFiles]

theorem recipeInvocations : s.recipeInvocations t' e = s.recipeInvocations t e := by
  unfold Site.recipeInvocations
  split
  · exact h.sourcesRecipe
  · unfold makefileRecipe
    rw [h.existingSourceDir, h.embeddedObjects]
  · unfold scriptRecipe
    rw [h.existingSourceDir]
  · rfl
  · rfl

theorem nativePlan : s.nativePlan t' e = s.nativePlan t e := by
  unfold Site.nativePlan
  rw [h.recipeInvocations, h.copiedHeaders]

theorem configuredPlan : s.configuredPlan t' e = s.configuredPlan t e := by
  unfold Site.configuredPlan
  rw [h.existingSourceDir, h.copiedHeaders]

end SameAnswers

/-- The check of prerequisites succeeds again as long as the files that it needs stay files. -/
theorem checkPrerequisites_again {R : Location} {k : Nat}
    (hin : ∀ l e, s.catalog.find? l = some e → e.Inward)
    (hseat : Seat t s.root R k) (hlinks : NoLinks t R) (hseat' : Seat t' s.root R k)
    (hlinks' : NoLinks t' R) (hcheck : s.checkPrerequisites t e = .ok ())
    (hkept : ∀ y, s.catalog.ReliesOn e y → HasFile t (R ++ y) → HasFile t' (R ++ y)) :
    s.checkPrerequisites t' e = .ok () := by
  have hagain : ∀ {name text : String}, isName name = true → Path.GoesDown text →
      s.catalog.ReliesOn e (name :: (Path.ofText text).parts) →
      t.query (s.root / name / text) Tree.isFile = .ok true →
      t'.query (s.root / name / text) Tree.isFile = .ok true := by
    intro name text hname htext hrelies hthere
    have hnames := htext.descending_section hname
    rw [htext.div_section hname, query_isFile_iff hseat hlinks (List.cons_ne_nil _ _) hnames] at hthere
    rw [htext.div_section hname, query_isFile_iff hseat' hlinks' (List.cons_ne_nil _ _) hnames]
    exact ⟨hthere.1, hkept _ hrelies hthere.2⟩
  obtain ⟨hheaders, harchives⟩ := checkPrerequisites_ok_iff.1 hcheck
  refine checkPrerequisites_ok_iff.2 ⟨fun d hd => ?_, fun d hd => ?_⟩
  · obtain ⟨e', he', hthere⟩ := hheaders d hd
    exact ⟨e', he', fun m hm => hagain (by decide) ((hin d e' (entry_ok he')).marker m hm)
      (.header hd (entry_ok he') hm) (hthere m hm)⟩
  · obtain ⟨e', he', hthere⟩ := harchives d hd
    exact ⟨e', he', fun a ha => hagain (by decide) ((hin d e' (entry_ok he')).archive a ha)
      (.archive hd (entry_ok he') ha) (hthere a ha)⟩

/-- When a library can be planned, the check of its prerequisites succeeds. -/
theorem plan_checks (he : s.entry l = .ok e) (h : s.plan t l = .ok plan) :
    s.checkPrerequisites t e = .ok () := by
  obtain ⟨e', he', h⟩ := except_bind_ok h
  obtain rfl := Except.ok.inj (he.symm.trans he')
  obtain ⟨⟨⟩, hcheck, -⟩ := except_bind_ok h
  exact hcheck

/-- A later tree gives a library the plan that it had when it answers the questions about sources and
objects alike, and has the headers and archives that must be there. -/
theorem plan_again (h : s.plan t l = .ok plan) (he : s.entry l = .ok e)
    (hsame : s.SameAnswers e t t') (hcheck : s.checkPrerequisites t' e = .ok ()) :
    s.plan t' l = .ok plan := by
  obtain ⟨e', he', h⟩ := except_bind_ok h
  obtain rfl := Except.ok.inj (he.symm.trans he')
  obtain ⟨⟨⟩, -, h⟩ := except_bind_ok h
  unfold Site.plan
  rw [he, except_ok_bind, hcheck, except_ok_bind, hsame.nativePlan, hsame.configuredPlan]
  exact h

end Site

end Sysroot

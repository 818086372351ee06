import Sysroot.Proofs.Install.Listing
import Sysroot.Proofs.Plan.Places

/-!
# What decides a plan

Of the file tree a plan takes little: which source files match, and which objects of other libraries
are there.  The rest of what is read is checked only.  So two trees in which a library can be planned
give it the same plan when they agree about these (`Site.plan_eq`), and the plan that provides its
headers does not depend on the tree at all (`Site.headerPlan_eq`).
-/

namespace Sysroot

open Effect Sysroot.Tree

namespace Tree

variable {t t₁ t₂ : Tree} {root : Path} {R L : Location} {k : Nat} {names : List String}

/-- What is directly below a location is listed by its names, in order. -/
theorem children_eq_of_isSome
    (h : ∀ name, (t₁.get? (L ++ [name])).isSome = (t₂.get? (L ++ [name])).isSome) :
    t₁.children L = t₂.children L := by
  have hsorted : ∀ t : Tree, (t.children L).Pairwise (· ≤ ·) := fun t =>
    (List.pairwise_mergeSort (by simpa using fun a b c => String.le_trans)
      (by simpa using fun a b => String.le_total a b) _).imp of_decide_eq_true
  refine List.Perm.eq_of_pairwise (fun _ _ _ _ => String.le_antisymm) (hsorted t₁) (hsorted t₂)
    ((List.perm_ext_iff_of_nodup (nodup_children t₁ L) (nodup_children t₂ L)).2 fun name => ?_)
  rw [mem_children, mem_children, ← Option.isSome_iff_exists, ← Option.isSome_iff_exists, h]

theorem children_eq (h : ∀ name, t₁.get? (L ++ [name]) = t₂.get? (L ++ [name])) :
    t₁.children L = t₂.children L :=
  children_eq_of_isSome fun name => by rw [h]

/-- A selection that finds something finds it in a directory. -/
theorem select_ne_nil {dir : Path} {pattern : Pattern} {paths : List Path}
    (h : t.select dir pattern = .ok paths) (hne : paths ≠ []) : t.query dir isDir = .ok true := by
  obtain ⟨there, hquery, hselect⟩ := except_bind_ok h
  cases there with
  | true => exact hquery
  | false =>
    cases hselect
    exact absurd rfl hne

/-- What is listed in a directory below a seat is what is there. -/
theorem Seat.list_eq (hseat : Seat t root R k) (hlinks : NoLinks t R) (hne : names ≠ [])
    (hnames : Descending names) (hquery : t.query (root.within names) isDir = .ok true) :
    t.list (root.within names) = t.children (R ++ names) := by
  have hdir := (query_ok hquery).resolve_right nofun
  have hnode : t.node? (root.within names) = some .dir := by simpa [Tree.isDir] using hdir
  obtain ⟨hfits, hn⟩ := (hseat.node?_eq_some hlinks hne hnames).1 hnode
  rw [Tree.list, hseat.locate_of_get? hlinks hne hfits hn]
  exact if_pos hn

/-- Trees that agree at a directory below a seat and in it have the same selection there. -/
theorem Seat.select_eq (hseat₁ : Seat t₁ root R k) (hlinks₁ : NoLinks t₁ R)
    (hseat₂ : Seat t₂ root R k) (hlinks₂ : NoLinks t₂ R) (hne : names ≠ []) (hnames : Descending names)
    (h : ∀ y, t₁.get? (R ++ (names ++ y)) = t₂.get? (R ++ (names ++ y))) {text : String}
    {paths₁ paths₂ : List Path}
    (h₁ : t₁.select (root.within names) ⟨[.wild text], false⟩ = .ok paths₁) (hne₁ : paths₁ ≠ [])
    (h₂ : t₂.select (root.within names) ⟨[.wild text], false⟩ = .ok paths₂) (hne₂ : paths₂ ≠ []) :
    paths₁ = paths₂ := by
  have hquery₁ := select_ne_nil h₁ hne₁
  have hquery₂ := select_ne_nil h₂ hne₂
  rw [select_wild text hquery₁, hseat₁.list_eq hlinks₁ hne hnames hquery₁] at h₁
  rw [select_wild text hquery₂, hseat₂.list_eq hlinks₂ hne hnames hquery₂] at h₂
  have hchildren : t₁.children (R ++ names) = t₂.children (R ++ names) :=
    children_eq fun name => by rw [List.append_assoc, h]
  rw [hchildren, h₂] at h₁
  exact (Except.ok.inj h₁).symm

end Tree

namespace Site

variable {s : Site} {t₁ t₂ : Tree} {e : Catalog.Entry} {l : Library}

/-- Whether two trees give the same source files to the patterns of an entry. -/
def SameSources (s : Site) (e : Catalog.Entry) (t₁ t₂ : Tree) : Prop :=
  ∀ text ∈ e.sources, ∀ files₁ files₂, filesMatching t₁ (s.sourceDir e) text = .ok files₁ →
    filesMatching t₂ (s.sourceDir e) text = .ok files₂ → files₁ = files₂

/-- Whether two trees have the same objects of the libraries whose objects go into the archive of an
entry. -/
def SameObjects (s : Site) (e : Catalog.Entry) (t₁ t₂ : Tree) : Prop :=
  ∀ d ∈ e.embedObjects, ∀ paths₁ paths₂,
    t₁.select (s.objectDir d) ⟨[.wild "*.o"], false⟩ = .ok paths₁ → paths₁ ≠ [] →
    t₂.select (s.objectDir d) ⟨[.wild "*.o"], false⟩ = .ok paths₂ → paths₂ ≠ [] → paths₁ = paths₂

theorem sourceFiles_eq (h : s.SameSources e t₁ t₂) {files₁ files₂ : List Path}
    (h₁ : sourceFiles t₁ e (s.sourceDir e) = .ok files₁)
    (h₂ : sourceFiles t₂ e (s.sourceDir e) = .ok files₂) : files₁ = files₂ := by
  obtain ⟨found₁, hfound₁, h₁⟩ := except_bind_ok h₁
  obtain ⟨found₂, hfound₂, h₂⟩ := except_bind_ok h₂
  obtain rfl : found₁ = found₂ := except_mapM_eq hfound₁ hfound₂ fun text htext => h text htext
  exact Except.ok.inj (h₁.symm.trans h₂)

theorem embeddedObjects_eq (h : s.SameObjects e t₁ t₂) {objects₁ objects₂ : List Path}
    (h₁ : s.embeddedObjects t₁ e = .ok objects₁) (h₂ : s.embeddedObjects t₂ e = .ok objects₂) :
    objects₁ = objects₂ := by
  obtain ⟨found₁, hfound₁, h₁⟩ := except_bind_ok h₁
  obtain ⟨found₂, hfound₂, h₂⟩ := except_bind_ok h₂
  have hfound : found₁ = found₂ := by
    refine except_mapM_eq hfound₁ hfound₂ fun d hd paths₁ paths₂ hpaths₁ hpaths₂ => ?_
    obtain ⟨selected₁, hselect₁, hpaths₁⟩ := except_bind_ok hpaths₁
    obtain ⟨selected₂, hselect₂, hpaths₂⟩ := except_bind_ok hpaths₂
    split at hpaths₁
    · cases hpaths₁
    · next hne₁ =>
      split at hpaths₂
      · cases hpaths₂
      · next hne₂ =>
        cases hpaths₁
        cases hpaths₂
        exact h d hd _ _ (mapError_ok hselect₁) hne₁ (mapError_ok hselect₂) hne₂
  subst hfound
  cases h₁
  cases h₂
  rfl

theorem copiedHeaders_unique {headers₁ headers₂ : Option HeaderPlan}
    (h₁ : s.copiedHeaders t₁ e = .ok headers₁) (h₂ : s.copiedHeaders t₂ e = .ok headers₂) :
    headers₁ = headers₂ := by
  unfold copiedHeaders at h₁ h₂
  split at h₁
  · next directory hcopies hdirectory =>
    simp only [hcopies, hdirectory] at h₂
    rcases hready₁ : s.readyHeaders t₁ e directory with fault | ready₁
    · rw [hready₁] at h₁
      cases h₁
    rcases hready₂ : s.readyHeaders t₂ e directory with fault | ready₂
    · rw [hready₂] at h₂
      cases h₂
    rw [hready₁, readyHeaders_ok hready₁] at h₁
    rw [hready₂, readyHeaders_ok hready₂] at h₂
    exact Except.ok.inj (h₁.symm.trans h₂)
  · next hnone =>
    split at h₂
    · next directory hcopies hdirectory => exact absurd hdirectory (hnone directory hcopies)
    · cases h₁
      cases h₂
      rfl

theorem recipeInvocations_eq (hsources : s.SameSources e t₁ t₂) (hobjects : s.SameObjects e t₁ t₂)
    {is₁ is₂ : List Invocation} (h₁ : s.recipeInvocations t₁ e = .ok is₁)
    (h₂ : s.recipeInvocations t₂ e = .ok is₂) : is₁ = is₂ := by
  unfold recipeInvocations at h₁ h₂
  split at h₁
  · next hrecipe =>
    simp only [hrecipe] at h₂
    obtain ⟨source₁, hsource₁, h₁⟩ := except_bind_ok h₁
    obtain ⟨source₂, hsource₂, h₂⟩ := except_bind_ok h₂
    obtain rfl := existingSourceDir_ok hsource₁
    obtain rfl := existingSourceDir_ok hsource₂
    obtain ⟨files₁, hfiles₁, h₁⟩ := except_bind_ok h₁
    obtain ⟨files₂, hfiles₂, h₂⟩ := except_bind_ok h₂
    obtain rfl := sourceFiles_eq hsources hfiles₁ hfiles₂
    exact Except.ok.inj (h₁.symm.trans h₂)
  · next hrecipe =>
    simp only [hrecipe] at h₂
    obtain ⟨source₁, hsource₁, h₁⟩ := except_bind_ok h₁
    obtain ⟨source₂, hsource₂, h₂⟩ := except_bind_ok h₂
    obtain rfl := existingSourceDir_ok hsource₁
    obtain rfl := existingSourceDir_ok hsource₂
    obtain ⟨own₁, hown₁, h₁⟩ := except_bind_ok h₁
    obtain ⟨own₂, hown₂, h₂⟩ := except_bind_ok h₂
    obtain ⟨embedded₁, hembedded₁, h₁⟩ := except_bind_ok h₁
    obtain ⟨embedded₂, hembedded₂, h₂⟩ := except_bind_ok h₂
    obtain rfl := Except.ok.inj (hown₁.symm.trans hown₂)
    obtain rfl := embeddedObjects_eq hobjects hembedded₁ hembedded₂
    exact Except.ok.inj (h₁.symm.trans h₂)
  · next hrecipe =>
    simp only [hrecipe] at h₂
    obtain ⟨source₁, hsource₁, h₁⟩ := except_bind_ok h₁
    obtain ⟨source₂, hsource₂, h₂⟩ := except_bind_ok h₂
    obtain rfl := existingSourceDir_ok hsource₁
    obtain rfl := existingSourceDir_ok hsource₂
    exact Except.ok.inj (h₁.symm.trans h₂)
  · next hrecipe =>
    simp only [hrecipe] at h₂
    exact Except.ok.inj (h₁.symm.trans h₂)
  · cases h₁

/-- Two trees give a library the same plan when they have the same source files for it, and the same
objects of other libraries that go into its archive. -/
theorem plan_eq {plan₁ plan₂ : Plan} (he : s.entry l = .ok e) (hsources : s.SameSources e t₁ t₂)
    (hobjects : s.SameObjects e t₁ t₂) (h₁ : s.plan t₁ l = .ok plan₁) (h₂ : s.plan t₂ l = .ok plan₂) :
    plan₁ = plan₂ := by
  obtain ⟨e₁, he₁, h₁⟩ := except_bind_ok h₁
  obtain ⟨e₂, he₂, h₂⟩ := except_bind_ok h₂
  obtain rfl := Except.ok.inj (he.symm.trans he₁)
  obtain rfl := Except.ok.inj (he.symm.trans he₂)
  obtain ⟨-, -, h₁⟩ := except_bind_ok h₁
  obtain ⟨-, -, h₂⟩ := except_bind_ok h₂
  split at h₁
  · next hkind =>
    simp only [hkind] at h₂
    obtain ⟨is₁, his₁, h₁⟩ := except_bind_ok h₁
    obtain ⟨is₂, his₂, h₂⟩ := except_bind_ok h₂
    obtain ⟨headers₁, hheaders₁, h₁⟩ := except_bind_ok h₁
    obtain ⟨headers₂, hheaders₂, h₂⟩ := except_bind_ok h₂
    obtain rfl := recipeInvocations_eq hsources hobjects his₁ his₂
    obtain rfl := copiedHeaders_unique hheaders₁ hheaders₂
    exact Except.ok.inj (h₁.symm.trans h₂)
  · next hkind =>
    simp only [hkind] at h₂
    obtain ⟨source₁, hsource₁, h₁⟩ := except_bind_ok h₁
    obtain ⟨source₂, hsource₂, h₂⟩ := except_bind_ok h₂
    obtain rfl := existingSourceDir_ok hsource₁
    obtain rfl := existingSourceDir_ok hsource₂
    obtain ⟨arguments₁, harguments₁, h₁⟩ := except_bind_ok h₁
    obtain ⟨arguments₂, harguments₂, h₂⟩ := except_bind_ok h₂
    obtain rfl := Except.ok.inj (harguments₁.symm.trans harguments₂)
    obtain ⟨headers₁, hheaders₁, h₁⟩ := except_bind_ok h₁
    obtain ⟨headers₂, hheaders₂, h₂⟩ := except_bind_ok h₂
    obtain rfl := copiedHeaders_unique hheaders₁ hheaders₂
    exact Except.ok.inj (h₁.symm.trans h₂)

/-- The plan that provides headers is the same in all trees in which there is one. -/
theorem headerPlan_eq {plan₁ plan₂ : HeaderPlan} (h₁ : s.headerPlan t₁ l = .ok plan₁)
    (h₂ : s.headerPlan t₂ l = .ok plan₂) : plan₁ = plan₂ := by
  obtain ⟨e₁, he₁, h₁⟩ := except_bind_ok h₁
  obtain ⟨e₂, he₂, h₂⟩ := except_bind_ok h₂
  obtain rfl := Except.ok.inj (he₁.symm.trans he₂)
  split at h₁
  · next directory hdirectory =>
    simp only [hdirectory] at h₂
    rw [readyHeaders_ok h₁, readyHeaders_ok h₂]
  · next hdirectory hkind hrecipe =>
    simp only [hdirectory, hkind, hrecipe] at h₂
    obtain ⟨source₁, hsource₁, h₁⟩ := except_bind_ok h₁
    obtain ⟨source₂, hsource₂, h₂⟩ := except_bind_ok h₂
    obtain rfl := existingSourceDir_ok hsource₁
    obtain rfl := existingSourceDir_ok hsource₂
    exact Except.ok.inj (h₁.symm.trans h₂)
  · cases h₁
  · cases h₁

end Site

end Sysroot

import Sysroot.Proofs.Install.Ownership

/-!
# What earlier libraries installed

No path is installed that another library lists, but a path above it may be: what was below that is
gone then.  So what another library installed is kept exactly when no path above it is installed
(`Request.run_keeps_iff`).
-/

namespace Sysroot.Install

open Sysroot.Tree Sysroot.Tree.Action

variable {t t' : Tree} {root : Path} {R : Location} {k : Nat} {l other : Library} {r : Request}
  {m : OrderedMap String Path} {owned : OrderedMap String Library} {files listed : List String}
  {x : List String} {key : String}

/-- What another library lists, and not the library itself, is not installed again. -/
theorem ne_of_listed (hready : Ready t root R k l m) (hcollisions : collisions owned l m = [])
    (howned : ∃ o, owned.find? (Path.ofNames x).text = some o ∧ o ≠ l) (hkey : key ∈ m.keys) :
    namesOf key ≠ x := by
  rintro rfl
  obtain ⟨o, ho, hne⟩ := howned
  rw [← (hready.entry_of_key hkey).2] at ho
  exact hne (owner_of_no_collision hcollisions hkey ho)

/-- What another library has installed is still there after a request was carried out exactly when
nothing is installed above it. -/
theorem Request.run_keeps_iff (h : Sound t root R k l r) (hm : r.mapping l t = (.ok m, t))
    {paths : List Path}
    (hok : r.run root l t = (.ok paths, t')) (hother : other ≠ l)
    (hlisted : readManifest root other t = (.ok listed, t))
    (hmem : (Path.ofNames x).text ∈ listed)
    (hown : ∀ files, readManifest root l t = (.ok files, t) → (Path.ofNames x).text ∉ files)
    (hmanifest : x ≠ manifestNames l) {n : Node} (hthere : t.get? (R ++ x) = some n) :
    t'.get? (R ++ x) = some n ↔ ∀ key ∈ m.keys, ¬ namesOf key <+: x := by
  rcases h.run_spec with ⟨fault, t₁, hrun, -⟩ |
    ⟨m', owned, t₁, t₂, hm', howned, hcollisions, hcreate, hready, hrun, hinst⟩
  · rw [hok] at hrun
    cases hrun
  rw [hok] at hrun
  cases hrun
  rw [hm] at hm'
  cases hm'
  obtain ⟨-, hcreated, hnull, -⟩ := create_spec hready.site hcreate
    (hready.links t₁ (.created hcreate))
  have hdir : t.get? R = some .dir := by
    by_contra hno
    rw [hready.site.get?_eq_none hno] at hthere
    cases hthere
  have hseat := hready.site.seat hdir
  have hlinks := (hready.links t₁ (.created hcreate)).of_grown hcreated.grown
  -- the other library's manifest is there, so the path has an owner, and it is not this library
  have howner : ∃ o, owned.find? (Path.ofNames x).text = some o ∧ o ≠ l := by
    obtain ⟨n', hn'⟩ := exists_of_readManifest hseat hnull hlinks hlisted hmem
    obtain ⟨listed', hlisted', hfind⟩ := owners_read howned hseat hnull hn'
    rw [hlisted] at hlisted'
    cases hlisted'
    obtain ⟨o, ho⟩ := Option.isSome_iff_exists.1 (hfind _ hmem)
    refine ⟨o, ho, ?_⟩
    rintro rfl
    obtain ⟨files, hfiles, hin⟩ := owners_lists howned ho
    exact hown files hfiles hin
  constructor
  · intro hkept key hkey hpre
    obtain ⟨n', hn', hne⟩ := hinst.taken key hkey
    have hbelow : namesOf key ≠ x := ne_of_listed hready hcollisions howner hkey
    have habove := get?_of_above hkept ((List.prefix_append_right_inj R).2 hpre)
      fun heq => hbelow (List.append_cancel_left heq)
    rw [hn'] at habove
    exact hne (Option.some.inj habove)
  · intro hnone
    rcases hinst.others x hnone hmanifest with heq | ⟨hfree, -⟩
    · rw [heq, hthere]
    · rw [hthere] at hfree
      cases hfree

theorem run_keeps_iff_headerInstalled :
    ∃ m paths t',
      (Request.headers ⟨.root, ["h"]⟩ "").mapping .libc headerInstalled =
        (.ok m, headerInstalled) ∧
      (Request.headers ⟨.root, ["h"]⟩ "").run ⟨.root, ["s"]⟩ .libc headerInstalled =
        (.ok paths, t') ∧
      (t'.get? ["s", "include", "c++", "v"] = some (.file [] false) ↔
        ∀ key ∈ m.keys, ¬ namesOf key <+: ["include", "c++", "v"]) := by
  have hc := reached_headerInstalled.consistent addressable_sysroot
  have hlinks : NoLinks headerInstalled [] := noLinks_of_entries (by decide +kernel)
  have hplace : IsPrefix "" := ⟨[], by decide +kernel, by decide⟩
  have hapart : (Request.headers ⟨.root, ["h"]⟩ "").Apart headerInstalled ["s"] := by
    refine ⟨hplace, fun dir hdir => ?_⟩
    rw [List.mem_singleton.1 hdir]
    exact outside_of_dir (by decide +kernel) (by decide) (by decide) (hlinks.within ["h"])
      (by decide +kernel)
  have hkeys : ((Request.headers ⟨.root, ["h"]⟩ "").mapping .libc headerInstalled).1.toOption.map
      OrderedMap.keys = some ["include/v"] := by
    decide +kernel
  have hdone : (transact ⟨.root, ["s"]⟩ .libc
      (((Request.headers ⟨.root, ["h"]⟩ "").mapping .libc headerInstalled).1.toOption.getD .empty)
      headerInstalled).1.toOption.isSome = true := by
    decide +kernel
  rcases hm : (Request.headers ⟨.root, ["h"]⟩ "").mapping .libc headerInstalled with ⟨fault | m, t₁⟩
  · rw [hm] at hkeys
    cases hkeys
  rw [hm] at hkeys hdone
  obtain rfl := (Request.reads_mapping _ _).eq_of_apply hm
  have hkeys' : m.keys = ["include/v"] := Option.some.inj hkeys
  obtain ⟨owned, howned, hfind⟩ := hc.owners addressable_sysroot
  have hnone : collisions owned .libc m = [] := by
    have hfree : owned.find? "include/v" = none := by
      rw [Option.eq_none_iff_forall_ne_some]
      intro o ho
      obtain ⟨keys, hmem, hf⟩ := (hfind _ _).1 ho
      simp only [List.mem_singleton, Prod.mk.injEq] at hmem
      rw [hmem.2] at hf
      exact absurd hf (by decide)
    rw [collisions, hkeys', List.filter_cons_of_neg (by simp [hfree]), List.filter_nil,
      List.mergeSort_nil]
  rcases hrun : transact ⟨.root, ["s"]⟩ .libc m headerInstalled with ⟨fault | paths, t'⟩
  · have hdone' : (transact ⟨.root, ["s"]⟩ .libc m headerInstalled).1.toOption.isSome = true :=
      hdone
    rw [hrun] at hdone'
    cases hdone'
  rw [← Request.run_of_mapping hm howned hnone] at hrun
  have hsound : Sound headerInstalled ⟨.root, ["s"]⟩ ["s"] linkBudget .libc
      (.headers ⟨.root, ["h"]⟩ "") :=
    { normal := hplace
      targets := hlinks.targetsFit
      site := fun _ _ => hc.site
      links := fun m t' hm hpasses => (hpasses.noLinks hc.site hc.links (hapart.entries hm)
        (hapart.ne_link hm)).noDirLinks
      manifest := fun target => hc.links _ target }
  obtain ⟨listed, hlisted, hmem⟩ := hc.readManifest addressable_sysroot .libcxx
  refine ⟨m, paths, t', rfl, hrun, ?_⟩
  refine Request.run_keeps_iff hsound hm hrun (show Library.libcxx ≠ .libc by decide) hlisted
    ((hmem _).2 ⟨_, List.mem_cons_self, List.mem_cons_self⟩) (fun files hfiles hin => ?_)
    (by decide +kernel) (by decide +kernel)
  obtain ⟨files', hfiles', hmem'⟩ := hc.readManifest addressable_sysroot .libc
  rw [hfiles] at hfiles'
  cases hfiles'
  obtain ⟨keys, hentry, -⟩ := (hmem' _).1 hin
  simp at hentry

end Sysroot.Install

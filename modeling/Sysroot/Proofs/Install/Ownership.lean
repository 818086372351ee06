import Sysroot.Proofs.Install.AllOrNothing
import Sysroot.Proofs.Install.Owners

/-!
# Ownership over a history

Requests are carried out one after another on a sysroot that was absent or empty at first
(`Reached`).  The log of those that succeeded tells who installed what, and every tree agrees with
its log (`Consistent`): each manifest lists what its library installed, no two list the same path,
and every file is listed.  Each request keeps this, and so does a history (`Reached.ownership`).
-/

namespace Sysroot.Install

open Sysroot.Tree Sysroot.Tree.Action

variable {t t' : Tree} {root : Path} {R : Location} {k : Nat} {l l' : Library} {r : Request}
  {m : OrderedMap String Path} {owned : OrderedMap String Library} {f : String}
  {log : List (Library × List String)}

/-! ## Histories -/

/-- Whether a library has installed a path: one of its requests that succeeded mapped it. -/
def Lists (log : List (Library × List String)) (l : Library) (f : String) : Prop :=
  ∃ keys, (l, keys) ∈ log ∧ f ∈ keys

theorem lists_cons {keys : List String} :
    Lists ((l, keys) :: log) l' f ↔ (l' = l ∧ f ∈ keys) ∨ Lists log l' f := by
  constructor
  · rintro ⟨keys', hmem, hf⟩
    rcases List.mem_cons.1 hmem with heq | hmem
    · cases heq
      exact .inl ⟨rfl, hf⟩
    · exact .inr ⟨keys', hmem, hf⟩
  · rintro (⟨rfl, hf⟩ | ⟨keys', hmem, hf⟩)
    · exact ⟨keys, List.mem_cons_self, hf⟩
    · exact ⟨keys', List.mem_cons_of_mem _ hmem, hf⟩

/-- The trees that requests lead to, each with the paths that were installed, the last ones first.
Between requests anything may happen outside of the sysroot. -/
inductive Reached (root : Path) (R : Location) (k : Nat) :
    Tree → List (Library × List String) → Prop where
  | start {t : Tree} (hsite : Sited t root R k) (hempty : ∀ y, y ≠ [] → t.get? (R ++ y) = none) :
      Reached root R k t []
  | elsewhere {t t' : Tree} {log : List (Library × List String)} (h : Reached root R k t log)
      (hsite : Sited t' root R k) (hsame : ∀ y, t'.get? (R ++ y) = t.get? (R ++ y)) :
      Reached root R k t' log
  | failed {t t' : Tree} {log : List (Library × List String)} {l : Library} {r : Request}
      {fault : Fault}
      (h : Reached root R k t log) (hr : r.Apart t R) (hrun : r.run root l t = (.error fault, t')) :
      Reached root R k t' log
  | installed {t t' : Tree} {log : List (Library × List String)} {l : Library} {r : Request}
      {m : OrderedMap String Path} {paths : List Path}
      (h : Reached root R k t log) (hr : r.Apart t R) (hm : r.mapping l t = (.ok m, t))
      (hrun : r.run root l t = (.ok paths, t')) : Reached root R k t' ((l, m.keys) :: log)

/-! ## Trees that agree with a log -/

/-- Whether a tree agrees with what libraries have installed. -/
structure Consistent (t : Tree) (root : Path) (R : Location) (k : Nat)
    (log : List (Library × List String)) : Prop where
  site : Sited t root R k
  links : NoLinks t R
  manifests : ∀ l, ∃ files, manifestAt root l (t.get? (R ++ manifestNames l)) = .ok files ∧
    ∀ f, f ∈ files ↔ Lists log l f
  /-- There is nothing but manifests among the manifests. -/
  others : ∀ name n, t.get? (R ++ [".manifests", name]) = some n →
    ∃ l : Library, name = l.name ++ ".json"
  disjoint : ∀ l l' f, Lists log l f → Lists log l' f → l = l'
  covered : ∀ y n, t.get? (R ++ y) = some n → n ≠ .dir → y.head? ≠ some ".manifests" →
    ∃ l, Lists log l (Path.ofNames y).text

/-- Whether the manifests of a sysroot have paths that can be asked about. -/
structure Addressable (root : Path) : Prop where
  null : hasNull root.text = false
  fits : ∀ l, Fits root (manifestNames l)

theorem Addressable.fits_dir (h : Addressable root) : Fits root [".manifests"] :=
  fits_manifests (h.fits .libc)

namespace Consistent

variable (h : Consistent t root R k log)

include h

/-- A manifest is read, and lists what its library has installed. -/
theorem readManifest (hroot : Addressable root) (l : Library) :
    ∃ files, readManifest root l t = (.ok files, t) ∧ ∀ f, f ∈ files ↔ Lists log l f := by
  obtain ⟨files, hfiles, hmem⟩ := h.manifests l
  refine ⟨files, ?_, hmem⟩
  rw [readManifest_of_noLinks h.site h.links hroot.null (hroot.fits l), hfiles]

/-- A library that has installed something has a manifest. -/
theorem exists_of_lists (hlists : Lists log l f) : ∃ n, t.get? (R ++ manifestNames l) = some n := by
  obtain ⟨files, hfiles, hmem⟩ := h.manifests l
  rcases hnode : t.get? (R ++ manifestNames l) with _ | n
  · rw [hnode] at hfiles
    cases hfiles
    exact absurd ((hmem f).2 hlists) List.not_mem_nil
  · exact ⟨n, rfl⟩

/-- The owners are told, and the owner of a path is the library that has installed it. -/
theorem owners (hroot : Addressable root) :
    ∃ owned, owners root t = (.ok owned, t) ∧ ∀ f l, owned.find? f = some l ↔ Lists log l f := by
  have hpaths : ∃ paths, Install.manifests t root = .ok paths ∧
      (∀ p ∈ paths, ∃ l, p = manifestPath root l) ∧
      ∀ l f, Lists log l f → manifestPath root l ∈ paths := by
    obtain ⟨paths, hpaths, hmem⟩ := manifests_of_noLinks h.site h.links hroot.fits_dir
    refine ⟨paths, hpaths, fun p hp => ?_, fun l f hlists => ?_⟩
    · obtain ⟨name, n, hn, -, rfl⟩ := (hmem p).1 hp
      obtain ⟨l, rfl⟩ := h.others name n hn
      exact ⟨l, (manifestPath_eq root l).symm⟩
    · obtain ⟨n, hn⟩ := h.exists_of_lists hlists
      exact (hmem _).2 ⟨_, n, hn, matchName_manifest l, manifestPath_eq root l⟩
  obtain ⟨paths, hpaths, hnames, hin⟩ := hpaths
  obtain ⟨owned, howned⟩ : ∃ owned, ownersFrom root .empty paths t = (.ok owned, t) := by
    refine ownersFrom_of_readable fun p hp => ?_
    obtain ⟨l, rfl⟩ := hnames p hp
    obtain ⟨files, hfiles, -⟩ := h.readManifest hroot l
    exact ⟨l, files, by rw [stem_manifestPath, Library.read_name], hfiles⟩
  have hall : Install.owners root t = (.ok owned, t) := by
    rw [owners_apply, hpaths]
    exact howned
  have hlists : ∀ f l, owned.find? f = some l → Lists log l f := by
    intro f l hf
    obtain ⟨files, hfiles, hmem⟩ := owners_lists hall hf
    obtain ⟨files', hfiles', hmem'⟩ := h.readManifest hroot l
    rw [hfiles] at hfiles'
    cases hfiles'
    exact (hmem' f).1 hmem
  refine ⟨owned, hall, fun f l => ⟨hlists f l, fun hl => ?_⟩⟩
  obtain ⟨-, -, -, hto⟩ := ownersFrom_ok howned
  obtain ⟨files, hfiles, hmem⟩ := h.readManifest hroot l
  have hsome := hto f (.inr ⟨l, manifestPath root l, hin l f hl,
    by rw [stem_manifestPath, Library.read_name],
    files, hfiles, (hmem f).2 hl⟩)
  obtain ⟨o, ho⟩ := Option.isSome_iff_exists.1 hsome
  rw [ho, h.disjoint o l f (hlists f o ho) hl]

end Consistent

/-! ## What a history preserves -/

/-- Nothing has been installed in a sysroot that is absent or empty. -/
theorem consistent_start (hsite : Sited t root R k)
    (hempty : ∀ y, y ≠ [] → t.get? (R ++ y) = none) :
    Consistent t root R k [] := by
  have hnot : ∀ y n, t.get? (R ++ y) = some n → n = .dir := by
    intro y n hn
    by_cases hy : y = []
    · by_contra hne
      rw [hy, List.append_nil] at hn
      have hnone := hsite.get?_eq_none (y := [])
        (by rw [hn]; exact fun heq => hne (Option.some.inj heq))
      rw [List.append_nil, hn] at hnone
      cases hnone
    · rw [hempty y hy] at hn
      cases hn
  refine ⟨hsite, fun y target hy => absurd (hnot y _ hy) nofun, fun l => ⟨[], ?_, fun f => ?_⟩,
    fun name n hn => ?_, ?_, fun y n hn hne => absurd (hnot y n hn) hne⟩
  · rw [hempty (manifestNames l) (List.cons_ne_nil _ _)]
    rfl
  · simp [Lists]
  · rw [hempty _ (List.cons_ne_nil _ _)] at hn
    cases hn
  · rintro l l' f ⟨keys, hmem, -⟩
    cases hmem

/-- What happens elsewhere does not matter. -/
theorem Consistent.elsewhere (h : Consistent t root R k log) (hsite : Sited t' root R k)
    (hsame : ∀ y, t'.get? (R ++ y) = t.get? (R ++ y)) : Consistent t' root R k log := by
  refine ⟨hsite, fun y target => ?_, fun l => ?_, fun name n => ?_, h.disjoint, fun y n => ?_⟩
  · rw [hsame]
    exact h.links y target
  · rw [hsame]
    exact h.manifests l
  · rw [hsame]
    exact h.others name n
  · rw [hsame]
    exact h.covered y n

/-- A failed request leaves a tree that agrees with the same log. -/
theorem Consistent.kept (h : Consistent t root R k log) (hkept : Kept t t' root R k) :
    Consistent t' root R k log := by
  have hamong : ∀ name, t'.get? (R ++ [".manifests", name]) = t.get? (R ++ [".manifests", name]) :=
    fun name => hkept.manifests _ (Nat.le_refl 2) rfl
  refine ⟨hkept.site, h.links.of_grown hkept.grown, fun l => ?_, fun name n hn => ?_, h.disjoint,
    fun y n hn hne hhead => h.covered y n (hkept.grown.of_ne_dir hn hne) hne hhead⟩
  · rw [show manifestNames l = [".manifests", l.name ++ ".json"] from rfl, hamong]
    exact h.manifests l
  · rw [hamong] at hn
    exact h.others name n hn

/-- An installation leaves a tree that agrees with a log that goes on with what it installed. -/
theorem Consistent.installed (h : Consistent t root R k log) (hroot : Addressable root)
    (hready : Ready t root R k l m) (howned : Install.owners root t = (.ok owned, t))
    (hcollisions : collisions owned l m = []) (hinst : Installed t t' root R k l m)
    (hlinks : NoLinks t' R) : Consistent t' root R k ((l, m.keys) :: log) := by
  have hplace : ∀ key ∈ m.keys, IsPlace (namesOf key) := fun key hkey =>
    (hready.entry_of_key hkey).1
  -- among the manifests only the one of the library changes
  have hamong : ∀ name, [".manifests", name] ≠ manifestNames l →
      t'.get? (R ++ [".manifests", name]) = t.get? (R ++ [".manifests", name]) := fun name =>
    hinst.get?_manifests hplace (List.cons_ne_nil name [])
  refine ⟨sited_of_seat hinst.seat, hlinks, fun l' => ?_, fun name n hn => ?_, ?_, ?_⟩
  · obtain ⟨files, hfiles, hmem⟩ := h.manifests l'
    by_cases hl : l' = l
    · obtain ⟨before, executable, hbefore, hfile⟩ := hinst.manifest
      subst hl
      rw [hfiles] at hbefore
      cases hbefore
      refine ⟨sortedSet (sortedSet (files ++ m.keys)), ?_, fun f => ?_⟩
      · rw [hfile]
        exact filesOf_manifestBytes root l' _
      · rw [mem_sortedSet, mem_sortedSet, List.mem_append, lists_cons, hmem]
        simp only [true_and]
        exact or_comm
    · refine ⟨files, ?_, fun f => ?_⟩
      · have hne : [".manifests", l'.name ++ ".json"] ≠ manifestNames l := fun heq =>
          hl (manifestNames_injective heq)
        rw [show manifestNames l' = [".manifests", l'.name ++ ".json"] from rfl, hamong _ hne]
        exact hfiles
      · rw [hmem, lists_cons]
        simp only [hl, false_and, false_or]
  · by_cases hne : [".manifests", name] = manifestNames l
    · exact ⟨l, by simpa [manifestNames] using hne⟩
    · rw [hamong name hne] at hn
      exact h.others name n hn
  · -- a path of the library that another one has installed would have been a collision
    obtain ⟨owned', howned', hfind⟩ := h.owners hroot
    rw [howned] at howned'
    cases howned'
    have hnew : ∀ {l' f}, f ∈ m.keys → Lists log l' f → l' = l := fun hf hl =>
      owner_of_no_collision hcollisions hf ((hfind _ _).2 hl)
    intro l₁ l₂ f h₁ h₂
    rcases lists_cons.1 h₁ with ⟨rfl, hf⟩ | hold <;> rcases lists_cons.1 h₂ with ⟨rfl, hf'⟩ | hold'
    · rfl
    · exact (hnew hf hold').symm
    · exact hnew hf' hold
    · exact h.disjoint l₁ l₂ f hold hold'
  · intro y n hn hne hhead
    by_cases hkey : ∃ key ∈ m.keys, namesOf key <+: y
    · obtain ⟨key, hkey, hpre⟩ := hkey
      obtain ⟨n', hn', hne'⟩ := hinst.taken key hkey
      have heq : namesOf key = y := by
        by_contra hbelow
        have hdir := get?_of_above hn ((List.prefix_append_right_inj R).2 hpre)
          fun heq => hbelow (List.append_cancel_left heq)
        rw [hn'] at hdir
        exact hne' (Option.some.inj hdir)
      refine ⟨l, lists_cons.2 (.inl ⟨rfl, ?_⟩)⟩
      rw [← heq, ← (hready.entry_of_key hkey).2]
      exact hkey
    · have hout : ∀ key ∈ m.keys, ¬ namesOf key <+: y := fun key hk hpre => hkey ⟨key, hk, hpre⟩
      have hmanifest : y ≠ manifestNames l := by
        rintro rfl
        exact hhead rfl
      rcases hinst.others y hout hmanifest with heq | ⟨-, hdir, -⟩
      · rw [heq] at hn
        obtain ⟨l', hl'⟩ := h.covered y n hn hne hhead
        exact ⟨l', lists_cons.2 (.inr hl')⟩
      · rw [hdir] at hn
        exact absurd (Option.some.inj hn).symm hne

/-- Every tree that requests lead to agrees with the log of those that succeeded. -/
theorem Reached.consistent (h : Reached root R k t log) (hroot : Addressable root) :
    Consistent t root R k log := by
  induction h with
  | start hsite hempty => exact consistent_start hsite hempty
  | elsewhere _ hsite hsame ih => exact ih.elsewhere hsite hsame
  | failed _ hr hrun ih =>
    rcases hr.run_spec ih.site hroot.null ih.links with
      ⟨fault', t₁, hfail, hkept⟩ | ⟨m, owned, t₁, -, -, -, -, hok, -⟩
    · rw [hrun] at hfail
      cases hfail
      exact ih.kept hkept
    · rw [hrun] at hok
      cases hok
  | installed _ hr hm hrun ih =>
    rcases hr.run_spec ih.site hroot.null ih.links with
      ⟨fault', t₁, hfail, -⟩ | ⟨m', owned, t₁, hm', howned, hnone, hready, hok, hinst, hlinks⟩
    · rw [hrun] at hfail
      cases hfail
    · rw [hrun] at hok
      cases hok
      rw [hm] at hm'
      cases hm'
      exact ih.installed hroot hready howned hnone hinst hlinks

/-- After any history of requests each manifest lists what its library has installed, no path has
been installed by two libraries, the owners are told, and every file but the manifests is listed in
exactly one manifest. -/
theorem Reached.ownership (h : Reached root R k t log) (hroot : Addressable root) :
    (∀ l, ∃ files, readManifest root l t = (.ok files, t) ∧ ∀ f, f ∈ files ↔ Lists log l f) ∧
    (∀ l l' f, Lists log l f → Lists log l' f → l = l') ∧
    (∃ owned, owners root t = (.ok owned, t) ∧ ∀ f l, owned.find? f = some l ↔ Lists log l f) ∧
    ∀ y n, t.get? (R ++ y) = some n → n ≠ .dir → y.head? ≠ some ".manifests" →
      ∃! l, ∃ files, readManifest root l t = (.ok files, t) ∧ (Path.ofNames y).text ∈ files := by
  have hc := h.consistent hroot
  refine ⟨hc.readManifest hroot, hc.disjoint, hc.owners hroot, fun y n hn hne hhead => ?_⟩
  obtain ⟨l, hl⟩ := hc.covered y n hn hne hhead
  obtain ⟨files, hfiles, hmem⟩ := hc.readManifest hroot l
  refine ⟨l, ⟨files, hfiles, (hmem _).2 hl⟩, ?_⟩
  rintro l' ⟨files', hfiles', hf⟩
  obtain ⟨files'', hfiles'', hmem'⟩ := hc.readManifest hroot l'
  rw [hfiles'] at hfiles''
  cases hfiles''
  exact hc.disjoint l' l _ ((hmem' _).1 hf) hl

/-- A header in a directory, and no sysroot yet. -/
def headerOnly : Tree where
  entries := [(["h"], .dir), (["h", "v"], .file [] false)]
  nodup := by decide
  root_free := by decide
  housed := by decide
  named := by decide +kernel
  home := []

/-- The tree in which the header was installed. -/
def headerInstalled : Tree :=
  ((Request.headers ⟨.root, ["h"]⟩ "c++").run ⟨.root, ["s"]⟩ .libcxx headerOnly).2

theorem isPrefix_header : IsPrefix "c++" := ⟨["c++"], by decide +kernel, by decide +kernel⟩

theorem addressable_sysroot : Addressable ⟨.root, ["s"]⟩ := by
  refine ⟨by decide +kernel, fun l => ?_⟩
  cases l <;> decide +kernel

theorem reached_headerInstalled :
    Reached ⟨.root, ["s"]⟩ ["s"] linkBudget headerInstalled [(.libcxx, ["include/c++/v"])] := by
  have hlinks : NoLinks headerOnly [] := noLinks_of_entries (by decide)
  have hstart : Reached ⟨.root, ["s"]⟩ ["s"] linkBudget headerOnly [] := by
    refine .start ⟨⟨.root, []⟩, [], ["s"], rfl, rfl, by decide +kernel, seat_root _, ?_⟩
      fun y _ => ?_
    · intro first rest heq
      cases heq
      rfl
    · rcases hn : headerOnly.get? (["s"] ++ y) with _ | n
      · rfl
      · have hmem := (get?_eq_some_iff (List.cons_ne_nil _ _)).1 hn
        simp [headerOnly] at hmem
  have hapart : (Request.headers ⟨.root, ["h"]⟩ "c++").Apart headerOnly ["s"] := by
    refine ⟨isPrefix_header, fun dir hdir => ?_⟩
    rw [List.mem_singleton.1 hdir]
    exact outside_of_dir rfl (by decide) (by decide) (hlinks.within ["h"]) (by decide +kernel)
  have hkeys : ((Request.headers ⟨.root, ["h"]⟩ "c++").mapping .libcxx headerOnly).1.toOption.map
      OrderedMap.keys = some ["include/c++/v"] := by
    decide +kernel
  have hok : ((Request.headers ⟨.root, ["h"]⟩ "c++").run ⟨.root, ["s"]⟩ .libcxx
      headerOnly).1.toOption.isSome = true := by
    decide +kernel
  rcases hm : (Request.headers ⟨.root, ["h"]⟩ "c++").mapping .libcxx headerOnly with ⟨fault | m, t₁⟩
  · rw [hm] at hkeys
    cases hkeys
  rw [hm] at hkeys
  rw [(Request.reads_mapping _ _).eq_of_apply hm] at hm
  rcases hrun : (Request.headers ⟨.root, ["h"]⟩ "c++").run ⟨.root, ["s"]⟩ .libcxx headerOnly with
    ⟨fault | paths, t'⟩
  · rw [hrun] at hok
    cases hok
  rw [headerInstalled, hrun, ← Option.some.inj hkeys]
  exact .installed hstart hapart hm hrun

theorem ownership_headerInstalled :
    ∃ owned, owners ⟨.root, ["s"]⟩ headerInstalled = (.ok owned, headerInstalled) ∧
      owned.find? "include/c++/v" = some .libcxx := by
  obtain ⟨-, -, ⟨owned, howned, hfind⟩, -⟩ := reached_headerInstalled.ownership addressable_sysroot
  exact ⟨owned, howned, (hfind _ _).2 ⟨_, List.mem_cons_self, List.mem_cons_self⟩⟩

end Sysroot.Install

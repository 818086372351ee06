import Sysroot.Proofs.Install.Commuting
import Sysroot.Proofs.Tree.Alike

/-!
# Installing again what is installed

What a request sent stands in a sysroot as long as the files are there, the manifest of the library
lists them and no other library owns them (`Stands`).  It does right after the request, it does in
every tree with the same sysroot, and it still does after other requests, unless one of them puts a
file in the place of a directory on the way to it (`Stands.of_run`).  A request whose files stand succeeds again
and changes nothing in the sysroot, provided that its sources are the same and that there is room to
set aside what it replaces (`Stands.run_repeats`).
-/

namespace Sysroot.Install

open Sysroot.Tree
open Sysroot.Tree.Action

variable {t t' u : Tree} {root : Path} {R : Location} {k : Nat} {l l' : Library} {r : Request}
  {sent : List String → Node → Prop} {files : List Path} {paths : List Path} {x y : List String}
  {n : Node} {owned : OrderedMap String Library} {source : Path}

/-! ## The same sysroot -/

section

variable (hseat : Seat t root R k) (hseat' : Seat t' root R k) (hlinks : NoLinks t R)
  (hlinks' : NoLinks t' R) (hsame : ∀ y, t'.get? (R ++ y) = t.get? (R ++ y))
include hseat hseat' hlinks hlinks' hsame

theorem alike_of_same {names : List String} (hne : names ≠ []) (hnames : Descending names) :
    Alike (root.within names) (R ++ names) t t' :=
  .of_seat hseat hseat' hlinks hlinks' hne hnames fun y _ => hsame y

theorem readManifest_of_same {before : List String} (h : readManifest root l t = (.ok before, t)) :
    readManifest root l t' = (.ok before, t') := by
  have halike : Alike (manifestPath root l) (R ++ manifestNames l) t t' := by
    rw [manifestPath_eq]
    exact alike_of_same hseat hseat' hlinks hlinks' hsame (List.cons_ne_nil _ _)
      (plain_manifestNames l).descending
  rw [readManifest_apply] at h ⊢
  rw [halike.query halike.holds, halike.contentOf]
  split at h
  · cases h
  · cases h
    rfl
  · split at h
    · cases h
    · exact Prod.ext (Prod.ext_iff.1 h).1 rfl

theorem ownersFrom_of_same {owned' : OrderedMap String Library}
    (h : ownersFrom root owned paths t = (.ok owned', t)) :
    ownersFrom root owned paths t' = (.ok owned', t') := by
  induction paths generalizing owned with
  | nil =>
    cases h
    rfl
  | cons p rest ih =>
    rw [ownersFrom_cons] at h ⊢
    split at h
    · cases h
    · next o ho =>
      split at h
      · cases h
      · next before t₁ hbefore =>
        obtain rfl := (reads_readManifest root o).eq_of_apply hbefore
        rw [readManifest_of_same hseat hseat' hlinks hlinks' hsame hbefore]
        exact ih h

/-- The owners are the same where the sysroot is. -/
theorem owners_of_same (h : owners root t = (.ok owned, t)) : owners root t' = (.ok owned, t') := by
  obtain ⟨paths, hpaths, h⟩ := owners_ok h
  have hpaths' : manifests t' root = .ok paths := by
    rw [← hpaths, manifests, manifests, manifestDir_eq]
    have halike : Alike (root.within [".manifests"]) (R ++ [".manifests"]) t t' :=
      alike_of_same hseat hseat' hlinks hlinks' hsame (List.cons_ne_nil _ _) (by decide)
    exact halike.select fun name hname => by cases List.mem_singleton.1 hname
  rw [owners_apply, hpaths']
  exact ownersFrom_of_same hseat hseat' hlinks hlinks' hsame h

end

/-! ## The same sources -/

/-- What is sent is the same where the directories are the same. -/
theorem Request.sends_iff_of_sameUnder (hr : r.Aimed t R) (hr' : r.Aimed u R) (hstandard : r.Standard)
    (hsource : ∀ x source, r.Gives t x source → ∃ n, t.node? source = some n)
    (hunder : ∀ dir ∈ r.dirs, SameUnder dir t u) : r.Sends u x n ↔ r.Sends t x n := by
  have hgives : ∀ {x source}, r.Gives t x source ↔ r.Gives u x source := gives_iff hstandard hunder
  have hnode : ∀ {x source}, r.Gives t x source → u.node? source = t.node? source := by
    intro x source h
    obtain ⟨dir, hdir, hmem⟩ := h.mem_dirs hstandard
    exact ((hunder dir hdir source).2 hmem).symm
  constructor
  · intro h
    obtain ⟨dir, hdir, p, hbeneath, hu⟩ := h.gives hstandard
    obtain ⟨n', hn'⟩ := hsource _ _ (hgives.2 hu)
    obtain ⟨dir', hdir', p', n'', heq, hbeneath', hsends⟩ := (hgives.2 hu).sends hstandard
    obtain rfl := (hr'.outside dir hdir).eq_of_node? hbeneath ((hnode (hgives.2 hu)).trans hn')
    obtain rfl := (hr.outside dir' hdir').eq_of_node? hbeneath' (heq ▸ hn')
    exact hsends
  · intro h
    obtain ⟨dir, hdir, p, hbeneath, ht⟩ := h.gives hstandard
    obtain ⟨n', hn'⟩ := hsource _ _ ht
    obtain ⟨dir', hdir', p', n'', heq, hbeneath', hsends⟩ := (hgives.1 ht).sends hstandard
    obtain rfl := (hr.outside dir hdir).eq_of_node? hbeneath hn'
    obtain rfl := (hr'.outside dir' hdir').eq_of_node? hbeneath' (heq ▸ (hnode ht).trans hn')
    exact hsends

/-! ## What stands -/

/-- Whether what a library sent stands in a sysroot: the files are there, the manifest lists them,
nobody else owns them, and there is a name left for a directory to set things aside. -/
structure Stands (root : Path) (R : Location) (l : Library) (sent : List String → Node → Prop)
    (t : Tree) : Prop where
  dirs : ∀ name ∈ sysrootDirs, t.get? (R ++ [name]) = some .dir
  there : ∀ x n, sent x n → t.get? (R ++ x) = some n
  listed : ∃ files executable,
    t.get? (R ++ manifestNames l) = some (.file (manifestBytes l files) executable) ∧
      ∀ x n, sent x n → (Path.ofNames x).text ∈ files
  owned : ∃ owned, owners root t = (.ok owned, t) ∧
    ∀ x n, sent x n → owned.find? (Path.ofNames x).text = some l
  aside : ∃ a, IsAside l a ∧ Fits root (stash a) ∧ t.get? (R ++ stash a) = none

theorem IsAside.stash_ne_manifest {a : String} (h : IsAside l a) : stash a ≠ manifestNames l' :=
  fun heq => h.ne_manifest l' (List.cons.inj (List.cons.inj heq).2).1

/-- What a request sent stands after it. -/
theorem Request.Aimed.stands (hr : r.Aimed t R) (hstandard : r.Standard) (hsite : Sited t root R k)
    (hlinks : NoLinks t R) (hok : r.run root l t = (.ok files, t')) :
    Stands root R l (fun x n => r.Sends t x n) t' := by
  have heff := hr.effects hstandard hsite hlinks hok
  obtain ⟨before, keys, -, hkeys, hmanifest⟩ := heff.manifest
  obtain ⟨m, owned, owned', hkeys', -, howned, hfind⟩ := hr.owners_after hstandard hsite hlinks hok
  obtain ⟨a, ha, hfits, hfree⟩ := (hr.installable hsite hlinks hok hstandard).aside
  refine ⟨heff.dirs, heff.sent, ⟨_, _, hmanifest, fun x n hsends =>
    List.mem_append_right _ ((hkeys _).2 ⟨x, n, hsends, rfl⟩)⟩, ⟨owned', howned, fun x n hsends => ?_⟩,
    a, ha, hfits, (heff.get?_manifests ha.stash_ne_manifest).trans hfree⟩
  rw [hfind, if_pos ((hkeys' _).2 ⟨x, n, hsends, rfl⟩)]

/-- What stands in a sysroot stands in every tree with the same sysroot. -/
theorem Stands.of_same (h : Stands root R l sent t) (hseat : Seat t root R k)
    (hseat' : Seat t' root R k) (hlinks : NoLinks t R) (hlinks' : NoLinks t' R)
    (hsame : ∀ y, t'.get? (R ++ y) = t.get? (R ++ y)) : Stands root R l sent t' := by
  obtain ⟨files, executable, hmanifest, hlisted⟩ := h.listed
  obtain ⟨owned, howned, hfind⟩ := h.owned
  obtain ⟨a, ha, hfits, hfree⟩ := h.aside
  exact ⟨fun name hname => (hsame _).trans (h.dirs name hname),
    fun x n hsent => (hsame x).trans (h.there x n hsent),
    ⟨files, executable, (hsame _).trans hmanifest, hlisted⟩,
    ⟨owned, owners_of_same hseat hseat' hlinks hlinks' hsame howned, hfind⟩,
    a, ha, hfits, (hsame _).trans hfree⟩

/-- After a request that puts no file above it, a file is there still unless the request sent another
one. -/
theorem Request.Effects.get?_file (h : r.Effects t t' root R k l)
    (hfree : ∀ x n', r.Sends t x n' → x <+: y → x = y) (hn : t.get? (R ++ y) = some n)
    (hy : y ≠ manifestNames l) (hnot : ∀ n', ¬ r.Sends t y n') : t'.get? (R ++ y) = some n := by
  have hout : ∀ x n', r.Sends t x n' → ¬ x <+: y := fun x n' hsends hpre =>
    hnot n' (hfree x n' hsends hpre ▸ hsends)
  rcases h.others y hout hy with hsame | ⟨hfree, -⟩
  · exact hsame.trans hn
  · rw [hn] at hfree
    cases hfree

/-- After a request that puts no file above it, a file is there still, or another one. -/
theorem Request.Effects.hasFile (h : r.Effects t t' root R k l) (hlinks : NoLinks t' R)
    (hfree : ∀ x n', r.Sends t x n' → x <+: y → x = y) (hfile : HasFile t (R ++ y))
    (hy : y ≠ manifestNames l) : HasFile t' (R ++ y) := by
  by_cases hsent : ∃ n', r.Sends t y n'
  · obtain ⟨n', hsends⟩ := hsent
    have hthere := h.sent y n' hsends
    cases n' with
    | file content executable => exact ⟨content, executable, hthere⟩
    | link target => exact absurd hthere (hlinks y target)
    | dir => exact absurd rfl (h.places y .dir hsends).2
  · obtain ⟨content, executable, hn⟩ := hfile
    exact ⟨content, executable, h.get?_file hfree hn hy fun n' hsends => hsent ⟨n', hsends⟩⟩

/-- What stands in a sysroot still does after a request that puts no file above it, and that sends no
other files on behalf of the same library. -/
theorem Stands.of_run (h : Stands root R l sent t) (hfiles : ∀ x n, sent x n → IsPlace x)
    (hr : r.Aimed t R) (hstandard : r.Standard) (hsite : Sited t root R k) (hlinks : NoLinks t R)
    (hok : r.run root l' t = (.ok files, t'))
    (habove : ∀ x n', r.Sends t x n' → ∀ y n, sent y n → x <+: y → x = y)
    (hsame : l' = l → ∀ x n n', sent x n → r.Sends t x n' → n' = n) :
    Stands root R l sent t' := by
  have heff := hr.effects hstandard hsite hlinks hok
  obtain ⟨files, executable, hmanifest, hlisted⟩ := h.listed
  obtain ⟨owned, howned, hfind⟩ := h.owned
  obtain ⟨a, ha, hfits, hfree⟩ := h.aside
  obtain ⟨-, m, owned₁, hm, howned₁, hnone, -⟩ := (hr.run_iff hstandard hsite hlinks).1 ⟨t', hok⟩
  obtain ⟨m', owned₂, owned', hkeys', howned₂, howned', hfind'⟩ :=
    hr.owners_after hstandard hsite hlinks hok
  obtain rfl : owned₁ = owned := Except.ok.inj ((Prod.ext_iff.1 (howned₁.symm.trans howned)).1)
  obtain rfl : owned₂ = owned₁ := Except.ok.inj ((Prod.ext_iff.1 (howned₂.symm.trans howned)).1)
  have hkeys := Request.keys_mapping hr.inward hstandard hm
  -- a path that the library owns is sent on its own behalf only
  have hself : ∀ {x n}, sent x n → (Path.ofNames x).text ∈ m'.keys → l' = l := by
    intro x n hsent hkey
    exact (owner_of_no_collision hnone ((hkeys _).2 ((hkeys' _).1 hkey)) (hfind x n hsent)).symm
  refine ⟨heff.dirs, fun x n hsent => ?_, ?_, ⟨owned', howned', fun x n hsent => ?_⟩, a, ha, hfits,
    (heff.get?_manifests ha.stash_ne_manifest).trans hfree⟩
  · by_cases hx : ∃ n', r.Sends t x n'
    · obtain ⟨n', hsends⟩ := hx
      have hl := hself hsent ((hkeys' _).2 ⟨x, n', hsends, rfl⟩)
      rw [heff.sent x n' hsends, hsame hl x n n' hsent hsends]
    · exact heff.get?_file (fun y n' hsends => habove y n' hsends x n hsent) (h.there x n hsent)
        (fun heq => (hfiles x n hsent).not_below_manifest (l := l') (by rw [heq]))
        fun n' hsends => hx ⟨n', hsends⟩
  · by_cases hl : l = l'
    · subst hl
      obtain ⟨before, keys, hbefore, -, hrecorded⟩ := heff.manifest
      refine ⟨before ++ keys, _, hrecorded, fun x n hsent => List.mem_append_left _ ?_⟩
      rw [hmanifest] at hbefore
      have hread : filesOf root l (manifestBytes l files) = .ok before := hbefore
      rw [filesOf_manifestBytes] at hread
      rw [← Except.ok.inj hread, mem_sortedSet, mem_sortedSet]
      exact hlisted x n hsent
    · exact ⟨files, executable, (heff.get?_manifests fun heq =>
        hl (manifestNames_injective heq)).trans hmanifest, hlisted⟩
  · rw [hfind']
    split
    · next hkey => rw [hself hsent hkey]
    · exact hfind x n hsent

/-! ## The same request again -/

section

variable (h : Stands root R l (fun x n => r.Sends t x n) u)
include h

/-- Above what stands there are directories. -/
theorem Stands.above (hsends : r.Sends t x n) (hy : y <+: x) (hne : y ≠ x) :
    u.get? (R ++ y) = some .dir := by
  obtain ⟨more, rfl⟩ := hy
  have hthere := h.there _ n hsends
  rw [← List.append_assoc] at hthere
  exact get?_of_append hthere fun hmore => hne (by rw [hmore, List.append_nil])

variable (hr : r.Aimed t R) (hr' : r.Aimed u R) (hstandard : r.Standard)
  (hinstallable : r.Installable t root R l) (hunder : ∀ dir ∈ r.dirs, SameUnder dir t u)
include hr hr' hstandard hinstallable hunder

/-- What a request changes whose files stand is nothing. -/
theorem Stands.get?_eq {u' : Tree} (heff : r.Effects u u' root R k l) (y : List String) :
    u'.get? (R ++ y) = u.get? (R ++ y) := by
  have hsends : ∀ {x n}, r.Sends u x n ↔ r.Sends t x n :=
    Request.sends_iff_of_sameUnder hr hr' hstandard hinstallable.source hunder
  have hsent : ∀ x n, r.Sends u x n → u.get? (R ++ x) = some n := fun x n hx =>
    h.there x n (hsends.1 hx)
  by_cases hbelow : ∃ x n, r.Sends u x n ∧ x <+: y
  · obtain ⟨x, n, hx, more, rfl⟩ := hbelow
    by_cases hmore : more = []
    · rw [hmore, List.append_nil, heff.sent x n hx, hsent x n hx]
    · -- nothing is below a file
      have hfile : some n ≠ some Node.dir := fun heq => (heff.places x n hx).2 (Option.some.inj heq)
      rw [← List.append_assoc, get?_append_eq_none (by rwa [heff.sent x n hx]) hmore,
        get?_append_eq_none (by rwa [hsent x n hx]) hmore]
  by_cases hy : y = manifestNames l
  · subst hy
    obtain ⟨before, keys, hbefore, hkeys, hrecorded⟩ := heff.manifest
    obtain ⟨files, executable, hmanifest, hlisted⟩ := h.listed
    rw [hmanifest] at hbefore
    have hread : filesOf root l (manifestBytes l files) = .ok before := hbefore
    rw [filesOf_manifestBytes] at hread
    have hfiles : sortedSet (before ++ keys) = sortedSet files := sortedSet_eq fun f => by
      rw [← Except.ok.inj hread, List.mem_append, mem_sortedSet, mem_sortedSet]
      refine or_iff_left_of_imp fun hf => ?_
      obtain ⟨x, n, hx, rfl⟩ := (hkeys f).1 hf
      exact hlisted x n (hsends.1 hx)
    rw [hrecorded, hmanifest, manifestBytes, manifestBytes, manifestJson, manifestJson, hfiles]
    rfl
  · rcases heff.others y (fun x n hx hpre => hbelow ⟨x, n, hx, hpre⟩) hy with hsame | ⟨hfree, -, hway⟩
    · exact hsame
    · -- what is on the way is there already
      have hthere : u.get? (R ++ y) = some .dir := by
        rcases hway with ⟨name, hname, hpre⟩ | ⟨x, n, hx, hpre⟩
        · obtain ⟨more, heq⟩ := hpre
          have hdir := h.dirs name hname
          by_cases hmore : more = []
          · rw [hmore, List.append_nil] at heq
            rw [heq, hdir]
          · rw [← heq, ← List.append_assoc] at hdir
            exact get?_of_append hdir hmore
        · exact h.above (hsends.1 hx) hpre fun heq => hbelow ⟨x, n, hx, heq ▸ List.prefix_rfl⟩
      rw [hfree] at hthere
      cases hthere

variable (hseat : Seat u root R k)
include hseat

/-- A request whose files stand can be carried out, when there is room to set them aside. -/
theorem Stands.installable
    (hroom : ∀ x n, r.Sends t x n → ∀ a, IsAside l a → Fits root (stash a ++ x)) :
    r.Installable u root R l := by
  have hsends : ∀ {x n}, r.Sends u x n ↔ r.Sends t x n :=
    Request.sends_iff_of_sameUnder hr hr' hstandard hinstallable.source hunder
  obtain ⟨files, executable, hmanifest, -⟩ := h.listed
  refine ⟨⟨u, create_of_dirs hseat hseat.null (fits_manifests hinstallable.fits) h.dirs⟩, h.aside,
    fun x n hx => hinstallable.place x n (hsends.1 hx), fun x source hgives => ?_,
    fun x n y n' hx hy => hinstallable.apart x n y n' (hsends.1 hx) (hsends.1 hy),
    fun x n hx p hp => .inr ?_, fun x n hx _ => hroom x n (hsends.1 hx), hinstallable.fits,
    ⟨_, by rw [hmanifest]; exact filesOf_manifestBytes root l files⟩⟩
  · obtain ⟨dir, hdir, hmem⟩ := hgives.mem_dirs hstandard
    obtain ⟨n, hn⟩ := hinstallable.source x source ((Request.gives_iff hstandard hunder).2 hgives)
    exact ⟨n, (((hunder dir hdir source).2 ((hunder dir hdir source).1.2 hmem)).symm.trans hn)⟩
  · have hdeep := (hinstallable.place x n (hsends.1 hx)).1.deep
    refine h.above (hsends.1 hx) (hp.trans (List.dropLast_prefix x)) fun heq => ?_
    have hlen := hp.length_le
    rw [heq, List.length_dropLast] at hlen
    omega

/-- A request whose files stand succeeds again where it finds the same sources, and changes nothing
in the sysroot. -/
theorem Stands.run_repeats {m : OrderedMap String Path} (hlinks : NoLinks u R)
    (hm : r.mapping l t = (.ok m, t))
    (hdirs : ∀ dir ∈ r.dirs, ∀ there, t.surveyed dir = .ok there → u.surveyed dir = .ok there)
    (hanswers : ∀ p ∈ r.expected, u.query p Tree.occupies = t.query p Tree.occupies)
    (hroom : ∀ x n, r.Sends t x n → ∀ a, IsAside l a → Fits root (stash a ++ x)) :
    ∃ files u', r.run root l u = (.ok files, u') ∧ r.Effects u u' root R k l ∧
      ∀ y, u'.get? (R ++ y) = u.get? (R ++ y) := by
  have hsends : ∀ {x n}, r.Sends u x n ↔ r.Sends t x n :=
    Request.sends_iff_of_sameUnder hr hr' hstandard hinstallable.source hunder
  obtain ⟨m', hm'⟩ := Request.mapping_of_same hdirs hanswers hm
  obtain ⟨owned, howned, hfind⟩ := h.owned
  have hnone : collisions owned l m' = [] := by
    refine collisions_eq_nil_iff.2 fun f hf o ho => ?_
    obtain ⟨x, n, hx, rfl⟩ := (Request.keys_mapping hr'.inward hstandard hm' f).1 hf
    rw [hfind x n (hsends.1 hx)] at ho
    exact (Option.some.inj ho).symm
  have hinstallable' := h.installable hr hr' hstandard hinstallable hunder hseat hroom
  obtain ⟨files, u', hok⟩ := hinstallable'.run hr' hstandard (sited_of_seat hseat) hlinks hm' howned hnone
  have heff := hr'.effects hstandard (sited_of_seat hseat) hlinks hok
  exact ⟨files, u', hok, heff, h.get?_eq hr hr' hstandard hinstallable hunder heff⟩

end

end Sysroot.Install

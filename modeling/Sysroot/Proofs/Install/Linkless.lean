import Sysroot.Proofs.Install.Sources

/-!
# Installing without links

When a sysroot has no links in it and neither has what is installed, there are none at any time
(`Passes.noLinks`), so nothing is in the way of the copying: a request whose sources lie apart from
the sysroot fails and leaves things as they were, or installs everything (`Request.run_spec`).
-/

namespace Sysroot.Install

open Sysroot.Tree Sysroot.Tree.Action

variable {t t' T : Tree} {root dir source : Path} {R : Location} {k : Nat} {l : Library}
  {r : Request}
  {m : OrderedMap String Path} {fault : Fault} {names : List String}

/-! ## Directories outside of a sysroot -/

/-- Whether a path leads to a place without links that is neither in the sysroot nor around it, and
does so whatever is in the sysroot. -/
def Outside (t : Tree) (R : Location) (dir : Path) : Prop :=
  ∀ D, t.locate dir = .ok D → (¬ R <+: D ∧ ¬ D <+: R) ∧ NoLinks t D ∧
    ∀ t', GrownAround R t t' → t'.locate dir = .ok D

/-- What is not below the sysroot was there before, or it is a new directory. -/
theorem GrownAround.get?_of_ne_dir (h : GrownAround R t t') {n : Node} {l : Location}
    (hl : ¬ R <+: l)
    (hn : t'.get? l = some n) (hne : n ≠ .dir) : t.get? l = some n := by
  rcases h.get? l fun hpre => absurd hpre hl with heq | ⟨-, hdir⟩
  · rw [← heq, hn]
  · rw [hdir] at hn
    exact absurd (Option.some.inj hn).symm hne

/-- A path to something in a directory outside of the sysroot leads to the place of its names, if its
text is not too long, whatever is in the sysroot. -/
theorem Outside.locate_within (h : Outside t R dir) {D r : List String} (hlocate : t.locate dir = .ok D)
    (hr : r ≠ []) {n : Node} (hn : t.get? (D ++ r) = some n)
    (hgrown : GrownAround R t t') (aim : Aim) :
    t'.get? (D ++ r) = some n ∧
      (Fits dir r → t'.locate (dir.within r) aim = .ok (D ++ r)) := by
  obtain ⟨⟨hin, haround⟩, hlinks, hsame⟩ := h D hlocate
  have hlocate' := hsame t' hgrown
  have hplain : Plain r := fun name hname => isName_of_get? hn name (List.mem_append_right D hname)
  -- nothing on the way from the directory to the source is in the sysroot
  have hapart : ∀ f, ¬ R <+: D ++ f := fun f hpre =>
    (List.prefix_or_prefix_of_prefix hpre (List.prefix_append D f)).elim hin haround
  have hstays : ∀ {f : List String} {m : Node},
      t.get? (D ++ f) = some m → t'.get? (D ++ f) = some m := by
    intro f m hf
    rcases hgrown.get? (D ++ f) fun hpre => absurd hpre (hapart f) with heq | ⟨hnone, -⟩
    · rw [heq, hf]
    · rw [hnone] at hf
      cases hf
  have hdir : t'.get? D = some .dir := by
    have hD : t.get? (D ++ []) = some .dir := by
      rw [List.append_nil]
      exact get?_of_append hn hr
    have hD' := hstays hD
    rwa [List.append_nil] at hD'
  obtain ⟨front, name, rfl⟩ : ∃ front name, r = front ++ [name] :=
    ⟨r.dropLast, r.getLast hr, (List.dropLast_concat_getLast hr).symm⟩
  refine ⟨hstays hn, fun hfits => ?_⟩
  rw [Tree.locate] at hlocate'
  split at hlocate'
  · cases hlocate'
  rw [Tree.locate, if_neg (Nat.not_lt.2 hfits)]
  obtain ⟨k', hk'⟩ : ∃ k', locateFrom t' aim linkBudget (t'.startOf dir)
      (dir.parts ++ (front ++ [name])) = locateFrom t' aim k' D (front ++ [name]) :=
    locateFrom_onward _ hr hplain.ne_slash hlocate' hdir
  rw [show (dir.within (front ++ [name])).parts = dir.parts ++ (front ++ [name]) from rfl,
    show t'.startOf (dir.within (front ++ [name])) = t'.startOf dir from rfl, hk']
  refine locateFrom_concat hplain (hstays (get?_of_concat hn)) (.inr fun target => ?_)
  rw [hstays hn]
  intro hlink
  exact hlinks _ target (hn.trans hlink)

/-- What is listed in a directory outside of the sysroot is no link, whatever is in the sysroot. -/
theorem Outside.ne_link (h : Outside t R dir) (hsource : source ∈ t.filesUnder dir)
    (hgrown : GrownAround R t t') (target : String) :
    t'.nodeItself? source ≠ some (.link target) := by
  obtain ⟨D, r, n, hlocate, hr, rfl, hn, hne⟩ := exists_of_mem_filesUnder hsource
  obtain ⟨hn', hl⟩ := h.locate_within hlocate hr hn hgrown .itself
  intro hlink
  rw [nodeItself?] at hlink
  by_cases hfits : Fits dir r
  · rw [hl hfits] at hlink
    exact (h D hlocate).2.1 r target (hn.trans (hn'.symm.trans hlink))
  · rw [locate_of_not_fits hfits] at hlink
    cases hlink

/-- Whether a path spells, from the root of the tree, a place without links in a directory, which is
neither in a sysroot nor around it. -/
structure Elsewhere (t : Tree) (R : Location) (p : Path) (D : Location) : Prop where
  spelled : p = ⟨.root, D⟩
  name : ∀ name ∈ D.getLast?, isName name = true
  parent : t.get? D.dropLast = some .dir
  inside : ¬ R <+: D
  around : ¬ D <+: R
  links : NoLinks t D
  fits : Fits ⟨.root, []⟩ D

namespace Elsewhere

variable {D : Location} {aim : Aim} (h : Elsewhere t R dir D)

include h

theorem exists_concat : ∃ front name, D = front ++ [name] ∧ t.get? front = some .dir ∧
    Plain (front ++ [name]) := by
  have hne : D ≠ [] := fun heq => h.around (heq ▸ List.nil_prefix)
  refine ⟨D.dropLast, D.getLast hne, (List.dropLast_concat_getLast hne).symm, h.parent,
    plain_append.2 ⟨isName_of_get? h.parent, plain_cons.2 ⟨h.name _ ?_, plain_nil⟩⟩⟩
  rw [List.getLast?_eq_some_getLast hne]
  rfl

theorem get?_of_grown (hgrown : GrownAround R t t') :
    t'.get? D = t.get? D ∨ t.get? D = none ∧ t'.get? D = some .dir :=
  hgrown.get? D fun hpre => absurd hpre h.inside

/-- The path leads to its place, whatever is in the sysroot. -/
theorem locate (hgrown : GrownAround R t t') : t'.locate dir aim = .ok D := by
  obtain ⟨front, name, rfl, hdir, hplain⟩ := h.exists_concat
  have hparent : t'.get? front = some .dir := by
    rcases hgrown.get? front fun hpre => absurd (hpre.trans (List.prefix_append _ _)) h.inside with
      heq | ⟨hnone, -⟩
    · rw [heq, hdir]
    · rw [hdir] at hnone
      cases hnone
  have hlink : ∀ target, t'.get? (front ++ [name]) ≠ some (.link target) := by
    intro target hlink
    rcases h.get?_of_grown hgrown with heq | ⟨-, hdir'⟩
    · exact h.links [] target (by rwa [List.append_nil, ← heq])
    · rw [hdir'] at hlink
      cases hlink
  have hlocate : t'.locate ((⟨.root, []⟩ : Path).within (front ++ [name])) aim = _ :=
    (seat_root t').locate (List.append_ne_nil_of_right_ne_nil front (List.cons_ne_nil name []))
      hplain h.fits
  rw [locateFrom_concat hplain hparent (.inr hlink)] at hlocate
  rw [h.spelled]
  exact hlocate

theorem outside : Outside t R dir := by
  intro D' hD'
  rw [h.locate (.of_grown (.refl t) (.refl R t))] at hD'
  cases hD'
  exact ⟨⟨h.inside, h.around⟩, h.links, fun t' hgrown => h.locate hgrown⟩

end Elsewhere

/-- A directory that no link leads to lies outside of a sysroot when neither is in the other. -/
theorem outside_of_dir {D : List String} (hdir : t.get? D = some .dir) (hin : ¬ R <+: D)
    (haround : ¬ D <+: R) (hlinks : NoLinks t D) (hfits : Fits ⟨.root, []⟩ D) :
    Outside t R ⟨.root, D⟩ := by
  have hne : D ≠ [] := fun heq => haround (heq ▸ List.nil_prefix)
  obtain ⟨front, name, rfl⟩ : ∃ front name, D = front ++ [name] :=
    ⟨D.dropLast, D.getLast hne, (List.dropLast_concat_getLast hne).symm⟩
  have hplain : Plain (front ++ [name]) := isName_of_get? hdir
  refine Elsewhere.outside ⟨rfl, fun name' hname => ?_, ?_, hin, haround, hlinks, hfits⟩
  · rw [List.getLast?_concat] at hname
    cases hname
    exact hplain _ (by simp)
  · rw [List.dropLast_concat]
    exact get?_of_concat (l := []) hdir

/-! ## Trees without links -/

/-- When the sources are no links, copying them makes none. -/
theorem LinksFrom.noLinks {sources : List Path} (h : LinksFrom T t R sources) (hT : NoLinks T R)
    (hsources : ∀ source ∈ sources, ∀ t' target, SameAround R T t' →
      t'.nodeItself? source ≠ some (.link target)) : NoLinks t R := by
  intro y target hy
  rcases h y target hy with ⟨y', hy'⟩ | ⟨source, hsource, t', hs, hlink⟩
  · exact hT y' target hy'
  · exact hsources source hsource t' target hs hlink

/-- When the sources are no links, a copying fails so that everything can be undone, or fills its
places without making a link. -/
theorem Opened.copyEach_of_noLinks {t₁ t₂ : Tree} {a : String} {items : List (String × Path)}
    (h : Opened t t₁ t₂ root R k a) (hlinks : NoLinks t R)
    (hentries : ∀ item ∈ items, IsEntry item (namesOf item.1))
    (hsources : ∀ item ∈ items, ∀ t' target, GrownAround R t t' →
      t'.nodeItself? item.2 ≠ some (.link target))
    (hsorted : items.Pairwise fun i j => ¬ namesOf j.1 <+: namesOf i.1) :
    (∃ e filled moved t₃, copyEach root (root.within (stash a)) items {} t₂ =
        (.error (.system e), undoOf root a filled moved, t₃) ∧
      Recoverable t₂ t₃ root R k a filled moved) ∨
    ∃ filled moved t₃, copyEach root (root.within (stash a)) items {} t₂ =
        (.ok (), undoOf root a filled moved, t₃) ∧
      Progress t₂ t₃ root R a filled moved ∧ NoLinks t₃ R := by
  have hlinks₂ : NoLinks t₂ R := fun y target hy => hlinks y target (h.get?_link hy)
  have hnone : ∀ done, done <+: items → ∀ source ∈ done.map Prod.snd, ∀ t' target,
      SameAround R t₂ t' → t'.nodeItself? source ≠ some (.link target) := by
    intro done hdone source hsource t' target hs
    obtain ⟨item, hitem, rfl⟩ := List.mem_map.1 hsource
    exact hsources item (hdone.subset hitem) t' target (h.grownAround hs)
  rcases copyEach_spec h.seat' h.null h.name hlinks₂.askable h.base h.stashed hentries
    (fun item hitem t' target hs hl => absurd hl (hnone items List.prefix_rfl item.2
      (List.mem_map.2 ⟨item, hitem, rfl⟩) t' target hs)) hsorted
    (fun done filled moved t₃ hdone _ _ hfrom item _ =>
      (hfrom.noLinks hlinks₂ (hnone done hdone)).noDirLinks.straight) with
    ⟨e, filled, moved, t₃, hfail, hrec⟩ | ⟨filled, moved, t₃, hok, hprog, hfrom, -⟩
  · exact .inl ⟨e, filled, moved, t₃, hfail, hrec⟩
  · exact .inr ⟨filled, moved, t₃, hok, hprog,
      hfrom.noLinks hlinks₂ (hnone items List.prefix_rfl)⟩

/-- When the sources are no links, an installation passes through trees without links. -/
theorem Passes.noLinks (h : Passes root l m t t') (hsite : Sited t root R k) (hlinks : NoLinks t R)
    (hentries : ∀ item ∈ m.pairs, IsEntry item (namesOf item.1))
    (hsources : ∀ item ∈ m.pairs, ∀ t' target, GrownAround R t t' →
      t'.nodeItself? item.2 ≠ some (.link target)) : NoLinks t' R := by
  have hcreated : ∀ {t₁ : Tree}, create root t = (.ok (), t₁) → NoLinks t₁ R := by
    intro t₁ ht₁
    have hgrown := create_grown root t
    rw [ht₁] at hgrown
    exact hlinks.of_grown hgrown
  cases h with
  | created h => exact hcreated h
  | @copied aside t₂ _ done u hopen hdone hcopy =>
    rcases openAside_opened hsite (fun t₁ ht₁ => (hcreated ht₁).noDirLinks) l with
      ⟨fault, t', hfail, -⟩ | ⟨t₁, t₂', a, -, hopen', haside, hopened⟩
    · rw [hopen] at hfail
      cases hfail
    rw [hopen] at hopen'
    cases hopen'
    have hmem : ∀ item ∈ done, item ∈ m.pairs := fun item hitem =>
      mem_inOrder.1 (hdone.subset hitem)
    rcases hopened.copyEach_of_noLinks hlinks (fun item hitem => hentries item (hmem item hitem))
      (fun item hitem => hsources item (hmem item hitem))
      ((inOrder_sorted hentries).sublist hdone.sublist) with
      ⟨e, filled, moved, t₃, hfail, -⟩ | ⟨filled, moved, t₃, hok, -, hlinks₃⟩
    · rw [hcopy] at hfail
      cases hfail
    · rw [hcopy] at hok
      cases hok
      exact hlinks₃

/-- In a sysroot without links a path leads to the place of its names, and nowhere if there is
nothing. -/
theorem node?_of_noLinks (h : Sited t root R k) (hlinks : NoLinks t R) (hne : names ≠ [])
    (hplain : Plain names) (hfits : Fits root names) :
    t.locate (root.within names) ≠ .error .nameTooLong ∧
      t.node? (root.within names) = t.get? (R ++ names) := by
  by_cases hdir : t.get? R = some .dir
  · have hseat := h.seat hdir
    have hlocate : t.locate (root.within names) = locateFrom t .target k R names :=
      hseat.locate hne hplain hfits
    obtain ⟨front, name, rfl⟩ : ∃ front name, names = front ++ [name] :=
      ⟨names.dropLast, names.getLast hne, (List.dropLast_concat_getLast hne).symm⟩
    refine ⟨hlocate ▸ hlinks.askable.locateFrom_ne hplain, ?_⟩
    rw [node?, hlocate]
    by_cases hfront : t.get? (R ++ front) = some .dir
    · rw [locateFrom_concat hplain hfront (.inr fun target => hlinks _ target)]
    · obtain ⟨e, he⟩ := locateFrom_of_not_dir .target name hdir (plain_append.1 hplain).1
        hlinks.noDirLinks.straight hfront
      rw [he, get?_concat_eq_none hfront]
  · have hnone := h.get?_eq_none hdir (y := names)
    obtain ⟨base, B, missing, rfl, rfl, hmissing, hseat, hfree⟩ := h
    cases missing with
    | nil => exact absurd hseat.dir (by rwa [List.append_nil] at hdir)
    | cons first rest =>
      have hplain' := plain_append.2 ⟨hmissing, hplain⟩
      have hlocate : t.locate (base.within (first :: rest ++ names)) =
          locateFrom t .target k B (first :: rest ++ names) := by
        refine hseat.locate (List.cons_ne_nil _ _) hplain' ?_
        rw [Fits, ← Path.within_within]
        exact hfits
      have hentry : locateFrom t .target k B (first :: rest ++ names) = .error .noEntry := by
        have hname := (plain_cons.1 hmissing).1
        exact locateFrom_of_free hname hseat.dir (hfree first rest rfl)
          (List.append_ne_nil_of_right_ne_nil rest hne)
      rw [Path.within_within, node?, hlocate, hentry, hnone]
      exact ⟨by simp, rfl⟩

/-- In a sysroot without links a manifest is read off its place. -/
theorem readManifest_of_noLinks (h : Sited t root R k) (hlinks : NoLinks t R)
    (hnull : hasNull root.text = false) (hfits : Fits root (manifestNames l)) :
    readManifest root l t = (manifestAt root l (t.get? (R ++ manifestNames l)), t) := by
  rcases hnode : t.get? (R ++ manifestNames l) with _ | n
  · obtain ⟨hlocate, hnone⟩ := node?_of_noLinks h hlinks
      (show manifestNames l ≠ [] from List.cons_ne_nil _ _) (plain_manifestNames l) hfits
    rw [readManifest_apply, manifestPath_eq, query_eq_ok hlocate, holds, hnone, hnode]
    rfl
  · have hdir : t.get? (R ++ [".manifests"]) = some .dir :=
      get?_of_concat (r := [".manifests"]) hnode
    have hseat := h.seat (get?_of_append hnode (List.cons_ne_nil _ _))
    rw [readManifest_of_seat hseat hnull hdir (fun target => hlinks _ target) hfits, hnode]

/-! ## Requests -/

/-- Whether a request names places within the directories of a sysroot and takes what is there from
outside of it. -/
structure Request.Apart (t : Tree) (R : Location) (r : Request) : Prop where
  normal : r.Normal
  outside : ∀ dir ∈ r.dirs, Outside t R dir

/-- What a failed request leaves: the tree as it was with new directories, none of them among the
manifests, and the sysroot where it was. -/
structure Kept (t t' : Tree) (root : Path) (R : Location) (k : Nat) : Prop where
  grown : t.Grown t'
  site : Sited t' root R k
  manifests : ∀ y, 2 ≤ y.length → y.head? = some ".manifests" → t'.get? (R ++ y) = t.get? (R ++ y)

/-- What a request from outside of a sysroot asks for is no link, whatever is in the sysroot. -/
theorem Request.Apart.ne_link (hr : r.Apart t R) (hm : r.mapping l t = (.ok m, t)) :
    ∀ item ∈ m.pairs, ∀ t' target,
      GrownAround R t t' → t'.nodeItself? item.2 ≠ some (.link target) := by
  intro item hitem t' target hgrown
  obtain ⟨dir, hdir, hentry⟩ := Request.mapping_ok hr.normal hm item hitem
  exact (hr.outside dir hdir).ne_link hentry.2 hgrown target

theorem Request.Apart.entries (hr : r.Apart t R) (hm : r.mapping l t = (.ok m, t)) :
    ∀ item ∈ m.pairs, IsEntry item (namesOf item.1) := by
  intro item hitem
  obtain ⟨dir, -, hentry⟩ := Request.mapping_ok hr.normal hm item hitem
  exact hentry.1

/-! ## Carrying a request out -/

section

variable {owned : OrderedMap String Library} (hsite : Sited t root R k)
  (hnull : hasNull root.text = false) (hlinks : NoLinks t R)

include hsite hnull hlinks

/-- A transaction that leaves things as they were in a sysroot without links keeps the sysroot where
it was, even if its directories cannot be made. -/
theorem Reverted.kept (hfail : transact root l m t = (.error fault, t'))
    (hrev : Reverted t t' root R k) : Kept t t' root R k := by
  rcases hcreate : create root t with ⟨fault' | _, t₁⟩
  · obtain ⟨fault'', heq⟩ : ∃ fault'', transact root l m t = (.error fault'', t₁) :=
      (transact_of_not_created hcreate).1
    obtain ⟨hsite₁, hcreated⟩ := create_of_noLinks hsite hnull hlinks
    rw [hcreate] at hsite₁ hcreated
    rw [hfail] at heq
    cases heq
    refine ⟨hcreated.grown, hsite₁, fun y hlen _ => ?_⟩
    rcases hcreated.below y with heq | ⟨-, -, hshort⟩
    · exact heq
    · omega
  · exact ⟨hrev.grown, hrev.site t₁ hcreate, hrev.manifests t₁ hcreate⟩

variable (hentries : ∀ item ∈ m.pairs, IsEntry item (namesOf item.1))
  (hsources : ∀ item ∈ m.pairs, ∀ t' target,
    GrownAround R t t' → t'.nodeItself? item.2 ≠ some (.link target))
  (howned : owners root t = (.ok owned, t))

include hentries hsources howned

/-- A sysroot without links is ready for sources that are none. -/
theorem ready_of_noLinks : Ready t root R k l m where
  site := hsite
  links := fun _ ht' => (ht'.noLinks hsite hlinks hentries hsources).noDirLinks
  askable := hlinks.askable
  entries := hentries
  sources := fun item hitem t' target hgrown hlink =>
    absurd hlink (hsources item hitem t' target hgrown)
  manifest := fun target => hlinks _ target
  readable := fun _ _ hfile => owners_readable howned
    (hsite.seat (get?_of_append hfile (List.cons_ne_nil _ _))) hnull hfile

/-- A transaction in a sysroot without links, with sources that are none, fails and leaves things as
they were, or installs everything and makes no links. -/
theorem transact_of_noLinks :
    (∃ fault t', transact root l m t = (.error fault, t') ∧ Kept t t' root R k) ∨
    ∃ t', transact root l m t = (.ok ((inOrder m).map fun item => root / item.1), t') ∧
      Installed t t' root R k l m ∧ NoLinks t' R := by
  rcases transact_spec (l := l) (ready_of_noLinks hsite hnull hlinks hentries hsources howned) with
    ⟨fault, t', hfail, hrev⟩ | ⟨t', hok, hinst⟩
  · exact .inl ⟨fault, t', hfail, hrev.kept hsite hnull hlinks hfail⟩
  · refine .inr ⟨t', hok, hinst, fun y target hy => ?_⟩
    rcases hinst.links y target hy with ⟨y', hy'⟩ | ⟨item, hitem, t'', hgrown, hlink⟩
    · exact hlinks y' target hy'
    · exact hsources item hitem t'' target hgrown hlink

end

/-- A request from outside of a sysroot without links fails and leaves things as they were, or
installs everything it asks for and makes no links. -/
theorem Request.Apart.run_spec (hr : r.Apart t R) (hsite : Sited t root R k)
    (hnull : hasNull root.text = false) (hlinks : NoLinks t R) :
    (∃ fault t', r.run root l t = (.error fault, t') ∧ Kept t t' root R k) ∨
    ∃ m owned t', r.mapping l t = (.ok m, t) ∧ owners root t = (.ok owned, t) ∧
      collisions owned l m = [] ∧ Ready t root R k l m ∧
      r.run root l t = (.ok ((inOrder m).map fun item => root / item.1), t') ∧
      Installed t t' root R k l m ∧ NoLinks t' R := by
  rcases Request.run_cases root l r t with ⟨fault, hfail⟩ | ⟨m, owned, hm, howned, hnone, hrun⟩
  · exact .inl ⟨fault, t, hfail, .refl t, hsite, fun _ _ _ => rfl⟩
  rcases transact_of_noLinks (l := l) hsite hnull hlinks (hr.entries hm) (hr.ne_link hm) howned with
    ⟨fault, t', hfail, hkept⟩ | ⟨t', hok, hinst, hlinks'⟩
  · exact .inl ⟨fault, t', hrun.trans hfail, hkept⟩
  · exact .inr ⟨m, owned, t', hm, howned, hnone,
      ready_of_noLinks hsite hnull hlinks (hr.entries hm) (hr.ne_link hm) howned,
      hrun.trans hok, hinst, hlinks'⟩

end Sysroot.Install

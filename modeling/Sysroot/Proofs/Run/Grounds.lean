import Sysroot.Proofs.Install.Linkless
import Sysroot.Proofs.Plan.Places
import Sysroot.Proofs.Tree.Pointwise
import Sysroot.Run.Builder

/-!
# The grounds of a run

A run works in two places: the sysroot and the directory of builds.  It stands on firm ground
(`Site.Apart`) when these lie apart from each other and from the headers among the sources, and
none of the three has links in it, so that nothing that happens in the former two moves any of
them.  The directories of both are made at the start of a run (`Builder.prepareRoots_grounded`),
and what happens afterwards in one of them leaves the other as it is (`Grounded`).
-/

namespace Sysroot

open Effect Sysroot.Tree Sysroot.Tree.Action Sysroot.Install

namespace Tree

variable {t t' t'' : Tree} {R B l : Location} {y : List String}

/-! ## Trees that differ in two places -/

/-- Whether trees differ below two locations at most, save for new directories in one of them. -/
structure Beside (R B : Location) (t t' : Tree) : Prop where
  home : t'.home = t.home
  get? : ∀ l, (R <+: l → l = R) → (B <+: l → l = B) →
    t'.get? l = t.get? l ∨ (t.get? l = none ∧ t'.get? l = some .dir)

namespace Beside

theorem refl (R B : Location) (t : Tree) : Beside R B t t := ⟨rfl, fun _ _ _ => .inl rfl⟩

theorem trans (h : Beside R B t t') (h' : Beside R B t' t'') : Beside R B t t'' where
  home := h'.home.trans h.home
  get? l hR hB := by
    rcases h'.get? l hR hB with heq' | ⟨hnone', hdir'⟩
    · rw [heq']
      exact h.get? l hR hB
    · rcases h.get? l hR hB with heq | ⟨-, hdir⟩
      · exact .inr ⟨heq ▸ hnone', hdir'⟩
      · rw [hdir] at hnone'
        cases hnone'

theorem of_grown (h : t.Grown t') : Beside R B t t' := ⟨h.home, fun l _ _ => h.get? l⟩

theorem of_grownAround (h : GrownAround R t t') : Beside R B t t' :=
  ⟨h.home, fun l hR _ => h.get? l hR⟩

theorem of_sameAround (h : SameAround B t t') : Beside R B t t' :=
  ⟨h.home, fun l _ hB => .inl (h.get? l hB)⟩

end Beside

/-- Whether below a location trees have the same in them, save for new directories in one of
them. -/
def SameFiles (R : Location) (t t' : Tree) : Prop :=
  ∀ y, t'.get? (R ++ y) = t.get? (R ++ y) ∨
    (t.get? (R ++ y) = none ∧ t'.get? (R ++ y) = some .dir)

theorem SameFiles.trans (h : SameFiles R t t') (h' : SameFiles R t' t'') : SameFiles R t t'' := by
  intro y
  rcases h' y with heq' | ⟨hnone', hdir'⟩
  · rw [heq']
    exact h y
  · rcases h y with heq | ⟨-, hdir⟩
    · exact .inr ⟨heq ▸ hnone', hdir'⟩
    · rw [hdir] at hnone'
      cases hnone'

theorem SameFiles.of_eq (h : ∀ y, t'.get? (R ++ y) = t.get? (R ++ y)) : SameFiles R t t' :=
  fun y => .inl (h y)

theorem Grown.sameFiles (h : t.Grown t') : SameFiles R t t' := fun y => h.get? (R ++ y)

/-- What is below one of two locations, of which neither is in the other, is not below the other
one. -/
theorem not_below_of_apart (hR : ¬ R <+: B) (hB : ¬ B <+: R) : ¬ B <+: R ++ y := fun hpre =>
  (List.prefix_or_prefix_of_prefix hpre (List.prefix_append R y)).elim hB hR

end Tree

namespace Install

variable {t t' : Tree} {root base : Path} {R B : Location} {k j : Nat} {names : List String}

/-- Making the directory of a site without links, if that succeeds, changes nothing or paves the way
to it from where the first missing one is. -/
theorem Sited.ensureDirs_cases (h : Sited t root R k) (hlinks : NoLinks t R)
    (hok : Action.ensureDirs root t = (.ok (), t')) : Seat t root R k ∧ t' = t ∨
      ∃ B missing, R = B ++ missing ∧ Paved B missing t t' := by
  obtain ⟨base, B, missing, rfl, rfl, hplain, hseat, hfree⟩ := h
  cases missing with
  | nil =>
    rw [Path.within_nil] at hok ⊢
    rw [List.append_nil]
    refine .inl ⟨hseat, ?_⟩
    rw [← hseat.ensureDirs_self, hok]
  | cons first rest =>
    have hnull : hasNull base.text = false := by
      have hno := ensureDirs_of_null (p := base.within (first :: rest)) (t := t)
      rw [Path.hasNull_within hplain, hok] at hno
      cases hn : hasNull base.text with
      | false => rfl
      | true => cases hno hn
    have hstraight : Straight t B k (first :: rest) :=
      (straight_of_missing hseat hlinks.noDirLinks hfree "").of_front (List.prefix_append _ _)
    rcases hseat.ensureDirs hnull hplain hstraight with ⟨e, he⟩ | ⟨t₁, ht₁, hpaved⟩
    · rw [he] at hok
      cases hok
    · rw [ht₁] at hok
      cases hok
      exact .inr ⟨B, first :: rest, rfl, hpaved⟩

/-- Making the directory of a site, if that succeeds, makes it where the site is. -/
theorem Sited.ensureDirs_self (h : Sited t root R k) (hlinks : NoLinks t R)
    (hok : Action.ensureDirs root t = (.ok (), t')) : t'.get? R = some .dir := by
  rcases h.ensureDirs_cases hlinks hok with ⟨hseat, rfl⟩ | ⟨B, missing, rfl, hpaved⟩
  · exact hseat.dir
  · exact hpaved.dir

/-- What is below the directory of a site stays as it is when that is made. -/
theorem Sited.ensureDirs_keeps_below (h : Sited t root R k) (hlinks : NoLinks t R)
    (hok : Action.ensureDirs root t = (.ok (), t')) (hne : names ≠ []) :
    t'.get? (R ++ names) = t.get? (R ++ names) := by
  rcases h.ensureDirs_cases hlinks hok with ⟨-, rfl⟩ | ⟨B, missing, rfl, hpaved⟩
  · rfl
  · refine hpaved.get?_of_not_above fun hpre => hne (List.eq_nil_of_length_eq_zero ?_)
    have hle := hpre.length_le
    simp only [List.length_append] at hle
    omega

/-- A path of names below a seat that stays where it is lies outside of a sysroot when neither is in
the other and there are no links, neither at its place nor on the way. -/
theorem outside_within (hseat : ∀ t', GrownAround R t t' → Seat t' base B j) (hne : names ≠ [])
    (hplain : Plain names) (hway : ∀ front, front <+: names → ∀ target,
      t.get? (B ++ front) ≠ some (.link target)) (hlinks : NoLinks t (B ++ names))
    (hin : ¬ R <+: B ++ names) (haround : ¬ B ++ names <+: R) :
    Outside t R (base.within names) := by
  intro D hD
  have hseat₀ : Seat t base B j := hseat t (.of_grown (.refl t) (.refl R t))
  have hfits : Fits base names := by
    by_contra hno
    rw [locate_of_not_fits hno] at hD
    cases hD
  obtain ⟨front, name, rfl⟩ : ∃ front name, names = front ++ [name] :=
    ⟨names.dropLast, names.getLast hne, (List.dropLast_concat_getLast hne).symm⟩
  rw [hseat₀.locate hne hplain hfits] at hD
  have hfront : front <+: front ++ [name] := List.prefix_append front [name]
  have hdir : t.get? (B ++ front) = some .dir := by
    by_contra hno
    have hstraight : Straight t B j front :=
      straight_of_no_link fun f target hf => hway f (hf.trans hfront) target
    obtain ⟨e, he⟩ := locateFrom_of_not_dir (k := j) .target name hseat₀.dir
      (fun n hn => hplain n (hfront.subset hn)) hstraight hno
    rw [he] at hD
    cases hD
  rw [locateFrom_concat hplain hdir (.inr (hway _ (List.prefix_refl _)))] at hD
  obtain rfl := Except.ok.inj hD
  refine ⟨⟨hin, haround⟩, hlinks, fun t' hgrown => ?_⟩
  have hsame : ∀ f, f <+: front ++ [name] → t'.get? (B ++ f) = t.get? (B ++ f) ∨
      (t.get? (B ++ f) = none ∧ t'.get? (B ++ f) = some .dir) := fun f hf =>
    hgrown.get? (B ++ f) fun hpre =>
      absurd (hpre.trans ((List.prefix_append_right_inj B).2 hf)) hin
  have hdir' : t'.get? (B ++ front) = some .dir := by
    rcases hsame front hfront with heq | ⟨hnone, -⟩
    · exact heq.trans hdir
    · rw [hnone] at hdir
      cases hdir
  rw [(hseat t' hgrown).locate hne hplain hfits]
  refine locateFrom_concat hplain hdir' (.inr fun target hlink => ?_)
  rcases hsame _ (List.prefix_refl _) with heq | ⟨-, hdir⟩
  · exact hway _ (List.prefix_refl _) target (heq.symm.trans hlink)
  · rw [hdir] at hlink
    cases hlink

/-- A path of names below a seat is one of a site if nothing is in the way of its directories. -/
theorem Sited.of_free {L : Location} (h : Seat t base L k) (hplain : Plain names)
    (hfree : ∀ front, front <+: names → t.get? (L ++ front) = none ∨ t.get? (L ++ front) = some .dir) :
    Sited t (base.within names) (L ++ names) k := by
  induction names using List.reverseRecOn with
  | nil =>
    rw [Path.within_nil, List.append_nil]
    exact sited_of_seat h
  | append_singleton names name ih =>
    rcases hfree _ (List.prefix_refl _) with hnone | hdir
    · obtain ⟨base', B, missing, hbase, hnames, hplain', hseat, hmissing⟩ :=
        ih (fun n hn => hplain n (List.mem_append_left _ hn)) fun front hfront =>
          hfree front (hfront.trans (List.prefix_append _ _))
      refine ⟨base', B, missing ++ [name], ?_, ?_, ?_, hseat, ?_⟩
      · rw [← Path.within_within, ← Path.within_within, hbase]
      · rw [← List.append_assoc, hnames, List.append_assoc]
      · exact plain_append.2 ⟨hplain', fun n hn => hplain n (List.mem_append_right _ hn)⟩
      · intro first rest hcons
        cases missing with
        | nil =>
          rw [List.append_nil] at hnames
          obtain ⟨rfl, -⟩ := List.cons.inj hcons
          rw [← hnames, List.append_assoc]
          exact hnone
        | cons first' rest' =>
          obtain ⟨rfl, -⟩ := List.cons.inj hcons
          exact hmissing first' rest' rfl
    · exact sited_of_seat (h.within hplain hdir)

/-- A path of names below a seat is one of a site if directories are made on the way there and there
are no links. -/
theorem Sited.of_ensureDirs {L : Location} {more : List String}
    (h : Seat t base L k) (hplain : Plain (names ++ more))
    (hway : ∀ front, front <+: names → ∀ target, t.get? (L ++ front) ≠ some (.link target))
    (hok : Action.ensureDirs (base.within (names ++ more)) t = (.ok (), t')) :
    Sited t (base.within names) (L ++ names) k := by
  by_cases hdir : t.get? (L ++ names) = some .dir
  · exact sited_of_seat (h.within (plain_append.1 hplain).1 hdir)
  have hstraight : Straight t L k (names ++ more) := by
    refine straight_of_no_link fun front target hfront hlink => ?_
    rcases List.prefix_or_prefix_of_prefix hfront (List.prefix_append names more) with hpre | hpre
    · exact hway front hpre target hlink
    · obtain ⟨rest, rfl⟩ := hpre
      cases rest with
      | nil => exact hway names (List.prefix_refl _) target (by rwa [List.append_nil] at hlink)
      | cons first rest =>
        rw [← List.append_assoc] at hlink
        exact hdir (get?_of_append hlink (List.cons_ne_nil _ _))
  refine .of_free h (plain_append.1 hplain).1 fun front hfront => ?_
  rcases hall : names ++ more with _ | ⟨first, rest⟩
  · obtain ⟨rfl, -⟩ := List.append_eq_nil_iff.1 hall
    exact absurd (by rw [List.append_nil]; exact h.dir) hdir
  · rw [hall] at hplain hstraight hok
    rcases h.ensureDirs h.null hplain hstraight with ⟨e, he⟩ | ⟨t₁, -, hpaved⟩
    · rw [he] at hok
      cases hok
    · exact hpaved.free front (hall ▸ hfront.trans (List.prefix_append names more))

/-- When the directories of a sysroot without links could be made, there is room for them. -/
theorem fits_of_create (h : Sited t root R k) (hok : create root t = (.ok (), t'))
    (hlinks : NoLinks t R) : Fits root [".manifests"] := by
  have hgrown := create_grown root t
  rw [hok] at hgrown
  obtain ⟨-, -, hnull, -⟩ := create_spec h hok (hlinks.of_grown hgrown).noDirLinks
  have hone : ∀ {name : String} {t t' : Tree}, Sited t root R k → NoLinks t R → isName name = true →
      Action.ensureDirs (root.within [name]) t = (.ok (), t') → Seat t' root R k ∧ NoLinks t' R := by
    intro name t t' hsite hno hname hmake
    have hg := ensureDirs_grown (p := root.within [name]) (t := t)
    rw [hmake] at hg
    rcases hsite.ensureDirs hnull hno.noDirLinks hname with ⟨e, he⟩ | ⟨t'', ht'', hseat, -⟩
    · rw [he] at hmake
      cases hmake
    · rw [ht''] at hmake
      cases hmake
      exact ⟨hseat, hno.of_grown hg⟩
  obtain ⟨ta, tb, ha, hb, hc⟩ := create_ok hok
  rw [includeDir_eq] at ha
  rw [libDir_eq] at hb
  rw [manifestDir_eq] at hc
  obtain ⟨hseata, hlinksa⟩ := hone h hlinks (by decide) ha
  obtain ⟨hseatb, hlinksb⟩ := hone (sited_of_seat hseata) hlinksa (by decide) hb
  exact (hseatb.ensureDirs_ok hlinksb (List.cons_ne_nil _ _) (by decide) hc).1

end Install

/-! ## Firm ground -/

/-- Whether in a tree the sysroot, the directory of builds and the headers among the sources lie
apart from each other, in places without links, and stay where they are whatever happens in the
former two, provided that these are there or can be made. -/
structure Site.Apart (s : Site) (t : Tree) (R B : Location) (k j : Nat) : Prop where
  not_above : ¬ R <+: B
  not_below : ¬ B <+: R
  sysroot : ∀ t', Beside R B t t' → t'.get? R = some .dir ∨ (create s.root t').1 = .ok () →
    Sited t' s.root R k
  builds : ∀ t', Beside R B t t' →
    t'.get? B = some .dir ∨ (Action.ensureDirs s.settings.buildRoot t').1 = .ok () →
    Sited t' s.settings.buildRoot B j
  links_sysroot : NoLinks t R
  links_builds : NoLinks t B
  headers : ∀ t', Beside R B t t' → ∀ l e directory, s.catalog.find? l = some e →
    e.publicHeaders = some directory → Outside t' R (s.sourceDir e / directory)

/-- In a tree without links below a seat that stays where it is, paths of names below it are apart
when none of them goes on another one. -/
theorem Site.apart_of_plain {s : Site} {t : Tree} {base : Path} {L : Location} {k : Nat}
    {x y : List String} (hbase : ∀ t', Beside (L ++ x) (L ++ y) t t' → Seat t' base L k)
    (hroot : s.root = base.within x) (hbuilds : s.settings.buildRoot = base.within y)
    (hplain : Plain x ∧ Plain y) (hxy : ¬ x <+: y) (hyx : ¬ y <+: x) (hlinks : NoLinks t L)
    (hheaders : ∀ l e directory, s.catalog.find? l = some e → e.publicHeaders = some directory →
      ∃ z, s.sourceDir e / directory = base.within z ∧ Plain z ∧
        (¬ x <+: z ∧ ¬ z <+: x) ∧ ¬ y <+: z ∧ ¬ z <+: y) :
    s.Apart t (L ++ x) (L ++ y) k k := by
  have hpre : ∀ {a b : List String}, L ++ a <+: L ++ b ↔ a <+: b := List.prefix_append_right_inj L
  -- on the way to the sysroot and to the directory of builds, and away from them, there is no link
  have hno : ∀ {t' : Tree} {f : List String}, Beside (L ++ x) (L ++ y) t t' →
      (x <+: f → f = x) → (y <+: f → f = y) → ∀ target, t'.get? (L ++ f) ≠ some (.link target) := by
    intro t' f h hx hy target hlink
    rcases h.get? (L ++ f) (fun hin => by rw [hx (hpre.1 hin)]) (fun hin => by rw [hy (hpre.1 hin)])
      with heq | ⟨-, hdir⟩
    · exact hlinks f target (heq.symm.trans hlink)
    · rw [hdir] at hlink
      cases hlink
  have hto : ∀ {f a : List String}, f <+: a → a <+: f → f = a := fun hf ha =>
    hf.eq_of_length_le ha.length_le
  refine ⟨fun hin => hxy (hpre.1 hin), fun hin => hyx (hpre.1 hin), fun t' h hmade => ?_,
    fun t' h hmade => ?_, hlinks.within x, hlinks.within y, fun t' h l e directory he hdirectory => ?_⟩
  · have hway : ∀ f, f <+: x → ∀ target, t'.get? (L ++ f) ≠ some (.link target) := fun f hf =>
      hno h (fun hin => hto hf hin) fun hin => absurd (hin.trans hf) hyx
    rw [hroot] at hmade ⊢
    rcases hmade with hdir | hmade
    · exact sited_of_seat ((hbase t' h).within hplain.1 hdir)
    · rcases hcreate : create (base.within x) t' with ⟨fault | _, t''⟩
      · rw [hcreate] at hmade
        cases hmade
      · obtain ⟨ta, -, hinclude, -⟩ := create_ok hcreate
        rw [includeDir_eq, Path.within_within] at hinclude
        exact .of_ensureDirs (hbase t' h) (plain_append.2 ⟨hplain.1, by simp; decide⟩) hway
          hinclude
  · have hway : ∀ f, f <+: y → ∀ target, t'.get? (L ++ f) ≠ some (.link target) := fun f hf =>
      hno h (fun hin => absurd (hin.trans hf) hxy) fun hin => hto hf hin
    rw [hbuilds] at hmade ⊢
    rcases hmade with hdir | hmade
    · exact sited_of_seat ((hbase t' h).within hplain.2 hdir)
    · rcases hensure : Action.ensureDirs (base.within y) t' with ⟨fault | _, t''⟩
      · rw [hensure] at hmade
        cases hmade
      · rw [← List.append_nil y] at hensure
        exact .of_ensureDirs (hbase t' h) (plain_append.2 ⟨hplain.2, plain_nil⟩) hway hensure
  · obtain ⟨z, hdir, hz, ⟨hxz, hzx⟩, hyz, hzy⟩ := hheaders l e directory he hdirectory
    have haway : ∀ f, f <+: z ∨ z <+: f → ∀ target, t'.get? (L ++ f) ≠ some (.link target) := by
      intro f hf
      refine hno h (fun hin => ?_) fun hin => ?_
      · rcases hf with hf | hf
        · exact absurd (hin.trans hf) hxz
        · exact ((List.prefix_or_prefix_of_prefix hin hf).elim hxz hzx).elim
      · rcases hf with hf | hf
        · exact absurd (hin.trans hf) hyz
        · exact ((List.prefix_or_prefix_of_prefix hin hf).elim hyz hzy).elim
    rw [hdir]
    refine outside_within (fun t'' hg => hbase t'' (h.trans (.of_grownAround hg)))
      (fun hnil => hzx (hnil ▸ List.nil_prefix)) hz (fun f hf => haway f (.inl hf))
      (fun f target => ?_) (fun hin => hxz (hpre.1 hin)) fun hin => hzx (hpre.1 hin)
    rw [List.append_assoc]
    exact haway _ (.inr (List.prefix_append z f)) target

/-- What a run stands on once its directories are made: both are there, without links in them, and
elsewhere nothing has happened but that directories were made. -/
structure Grounded (R B : Location) (t₀ t : Tree) : Prop where
  beside : Beside R B t₀ t
  sysroot : t.get? R = some .dir
  builds : t.get? B = some .dir
  links_sysroot : NoLinks t R
  links_builds : NoLinks t B

namespace Grounded

variable {s : Site} {t₀ t t' : Tree} {R B : Location} {k j : Nat} {names : List String}

/-- Where a run stands is firm ground for another one. -/
theorem apart (hs : s.Apart t₀ R B k j) (h : Grounded R B t₀ t) : s.Apart t R B k j :=
  ⟨hs.not_above, hs.not_below, fun t' ht' => hs.sysroot t' (h.beside.trans ht'),
    fun t' ht' => hs.builds t' (h.beside.trans ht'), h.links_sysroot, h.links_builds,
    fun t' ht' => hs.headers t' (h.beside.trans ht')⟩

theorem of_grown (h : Grounded R B t₀ t) (hg : t.Grown t') : Grounded R B t₀ t' where
  beside := h.beside.trans (.of_grown hg)
  sysroot := hg.within R .dir h.sysroot
  builds := hg.within B .dir h.builds
  links_sysroot := h.links_sysroot.of_grown hg
  links_builds := h.links_builds.of_grown hg

section

variable (hs : s.Apart t₀ R B k j) (h : Grounded R B t₀ t)

include hs h

theorem seat_sysroot : Seat t s.root R k := (hs.sysroot t h.beside (.inl h.sysroot)).seat h.sysroot

theorem seat_builds : Seat t s.settings.buildRoot B j :=
  (hs.builds t h.beside (.inl h.builds)).seat h.builds

/-- What happens in the directory of builds leaves the sysroot as it is. -/
theorem of_changedBelow (hc : ChangedBelow s.settings.buildRoot B j t t') :
    Grounded R B t₀ t' ∧ ∀ y, t'.get? (R ++ y) = t.get? (R ++ y) := by
  obtain ⟨hsame, hlinks⟩ := hc (seat_builds hs h) h.links_builds
  have heq : ∀ y, t'.get? (R ++ y) = t.get? (R ++ y) := fun y =>
    hsame.get? _ fun hpre => absurd hpre (not_below_of_apart hs.not_above hs.not_below)
  refine ⟨⟨h.beside.trans (.of_sameAround hsame), ?_, hsame.seat.trans h.builds,
    fun y target => ?_, hlinks⟩, heq⟩
  · have hR := heq []
    rw [List.append_nil] at hR
    exact hR.trans h.sysroot
  · rw [heq]
    exact h.links_sysroot y target

/-- What happens in the sysroot leaves the directory of builds as it is, save for new
directories. -/
theorem of_grownAround (hg : GrownAround R t t') (hdir : t'.get? R = some .dir)
    (hlinks : NoLinks t' R) : Grounded R B t₀ t' := by
  have hsame : ∀ y, t'.get? (B ++ y) = t.get? (B ++ y) ∨
      (t.get? (B ++ y) = none ∧ t'.get? (B ++ y) = some .dir) := fun y =>
    hg.get? _ fun hpre => absurd hpre (not_below_of_apart hs.not_below hs.not_above)
  refine ⟨h.beside.trans (.of_grownAround hg), hdir, ?_, hlinks, fun y target hy => ?_⟩
  · rcases hsame [] with heq | ⟨-, hB⟩
    · rw [List.append_nil] at heq
      exact heq.trans h.builds
    · rwa [List.append_nil] at hB
  · rcases hsame y with heq | ⟨-, hB⟩
    · exact h.links_builds y target (heq.symm.trans hy)
    · rw [hB] at hy
      cases hy

/-- What is in the directory of builds lies outside of the sysroot. -/
theorem outside_builds (hne : names ≠ []) (hplain : Plain names) :
    Outside t R (s.settings.buildRoot.within names) := by
  refine outside_within (B := B) (j := j) (fun t' hg => ?_) hne hplain
    (fun f _ target => h.links_builds f target) (h.links_builds.within names)
    (not_below_of_apart hs.not_below hs.not_above) fun hpre =>
      hs.not_below ((List.prefix_append B names).trans hpre)
  have hdir : t'.get? B = some .dir := by
    rcases hg.get? B fun hpre => absurd hpre hs.not_above with heq | ⟨-, hB⟩
    · exact heq.trans h.builds
    · exact hB
  exact (hs.builds t' (h.beside.trans (.of_grownAround hg)) (.inl hdir)).seat hdir

end

end Grounded

/-! ## Making the directories -/

namespace Builder

variable {σ : Type} {b : Builder σ} {t t' : Tree} {R B : Location} {k j : Nat}
  {order : List Library} {platformFile : Option Path}

theorem platformPath_eq (b : Builder σ) : Toolchain.platformPath b.platformDir =
    b.settings.buildRoot.within (["cmake-modules", "Platform"] ++ ["WebAssembly.cmake"]) := by
  rw [Toolchain.platformPath, platformDir, Path.div_name (by decide), Path.div_name (by decide),
    Path.div_name (by decide)]
  simp

theorem below_platformPath (b : Builder σ) :
    Below b.settings.buildRoot (Toolchain.platformPath b.platformDir) ∧
      Below b.settings.buildRoot (Toolchain.platformPath b.platformDir).parent := by
  rw [platformPath_eq, Path.parent_within]
  exact ⟨⟨_, by simp, by decide, rfl⟩, ⟨_, by simp, by decide, rfl⟩⟩

theorem staysBelow_writePlatformFile (b : Builder σ) : StaysBelow b.settings.buildRoot B j
    (b.toolchain.writePlatformFile b.platformDir) := by
  obtain ⟨hpath, hparent⟩ := below_platformPath b
  exact (staysBelow_ensureDirs hparent).bind fun _ =>
    (staysBelow_writeText hpath _).bind fun _ => (reads_pure _).staysBelow

/-- Where a run stands does not depend on its platform file. -/
theorem apart_site (h : (b.site none).Apart t R B k j) (platformFile : Option Path) :
    (b.site platformFile).Apart t R B k j :=
  ⟨h.not_above, h.not_below, h.sysroot, h.builds, h.links_sysroot, h.links_builds, h.headers⟩

/-- The directories of a run are made first, on the ground that it was given; they leave the files of
the sysroot and what is in the directory of builds as they are.  The platform file comes last. -/
theorem prepareRoots_ok (hs : (b.site none).Apart t R B k j)
    (hok : b.prepareRoots order t = (.ok platformFile, t')) :
    ∃ made, Grounded R B t made ∧ SameFiles R t made ∧ Sited t b.settings.sysrootDir R k ∧
      ((∀ name ∈ sysrootDirs, made.get? (R ++ [name]) = some .dir) ∧
        Fits b.settings.sysrootDir [".manifests"]) ∧
      (∀ names, names ≠ [] → made.get? (B ++ names) = t.get? (B ++ names)) ∧
      (b.needsPlatformFile order = true ∧ (∃ p, platformFile = some p ∧
          b.toolchain.writePlatformFile b.platformDir made = (.ok p, t')) ∨
        b.needsPlatformFile order = false ∧ platformFile = none ∧ t' = made) := by
  rw [prepareRoots, onRefusal_apply] at hok
  split at hok
  · cases hok
  rename_i r t₃ hno hrun
  obtain ⟨rfl, rfl⟩ := Prod.mk.inj hok
  obtain ⟨⟨⟩, t₁, hcreate, hrun⟩ := bind_ok hrun
  obtain ⟨⟨⟩, t₂, hbuilds, hrun⟩ := bind_ok hrun
  have hgrown₁ : t.Grown t₁ := by
    have hg := create_grown b.settings.sysrootDir t
    rwa [hcreate] at hg
  have hgrown₂ : t₁.Grown t₂ := by
    have hg := ensureDirs_grown (p := b.settings.buildRoot) (t := t₁)
    rwa [hbuilds] at hg
  have hgrown : t.Grown t₂ := hgrown₁.trans hgrown₂
  have hsite : Sited t b.settings.sysrootDir R k :=
    hs.sysroot t (.refl R B t) (.inr (congrArg Prod.fst hcreate))
  obtain ⟨hseat, -, -, -⟩ := create_spec hsite hcreate
    (hs.links_sysroot.of_grown hgrown₁).noDirLinks
  have hsite' : Sited t₁ b.settings.buildRoot B j :=
    hs.builds t₁ (.of_grown hgrown₁) (.inr (congrArg Prod.fst hbuilds))
  have hlinks : NoLinks t₁ B := hs.links_builds.of_grown hgrown₁
  refine ⟨t₂, ⟨.of_grown hgrown, hgrown₂.within R .dir hseat.dir,
    hsite'.ensureDirs_self hlinks hbuilds, hs.links_sysroot.of_grown hgrown,
    hs.links_builds.of_grown hgrown⟩, hgrown.sameFiles, hsite, ⟨fun name hname =>
      hgrown₂.within _ .dir ((create_exact hsite hcreate hs.links_sysroot).1 name hname),
    fits_of_create hsite hcreate hs.links_sysroot⟩, fun names hne => ?_, ?_⟩
  · rw [hsite'.ensureDirs_keeps_below hlinks hbuilds hne]
    exact create_keeps hsite hcreate hs.links_sysroot
      (fun hpre => hs.not_below ((List.prefix_append B names).trans hpre))
      (not_below_of_apart hs.not_below hs.not_above)
  · split at hrun
    · next hneeds =>
      obtain ⟨p, t₄, hwrite, hrun⟩ := bind_ok hrun
      cases hrun
      exact .inl ⟨hneeds, p, rfl, hwrite⟩
    · next hneeds =>
      cases hrun
      exact .inr ⟨by simpa using hneeds, rfl, rfl⟩

/-- When its directories are made, a run stands on the ground that it was given, and the sysroot is
where it was and has the files that it had. -/
theorem prepareRoots_grounded (hs : (b.site none).Apart t R B k j)
    (hok : b.prepareRoots order t = (.ok platformFile, t')) :
    Grounded R B t t' ∧ SameFiles R t t' ∧ Sited t b.settings.sysrootDir R k := by
  obtain ⟨made, hground, hfiles, hsite, -, -, ⟨-, p, rfl, hwrite⟩ | ⟨-, rfl, rfl⟩⟩ :=
    prepareRoots_ok hs hok
  · have hbelow : ChangedBelow b.settings.buildRoot B j made t' :=
      (staysBelow_writePlatformFile b).of_apply hwrite fun _ _ => trivial
    obtain ⟨hground', hsame⟩ := hground.of_changedBelow hs hbelow
    exact ⟨hground', hfiles.trans (.of_eq hsame), hsite⟩
  · exact ⟨hground, hfiles, hsite⟩

end Builder

end Sysroot

import Sysroot.Proofs.Install.Sources
import Sysroot.Proofs.Plan.Determined

/-!
# Trees that are alike below a directory

Two trees are alike below a directory when what goes down from there leads to the same locations in
both, and the same is at these (`Alike`).  So it is when the directory has its seat at one location in
both, without links, with the same on the way and below (`Alike.of_seat`), and when its path leads to
one location in both, without links and with the same below (`Alike.of_locate`).  Then all questions
about paths that go down from the directory have the same answers, the contents are the same, and so
are the paths below it and what patterns select from it (`Alike.select`).
-/

namespace Sysroot

namespace Tree

open Effect

variable {t t' : Tree} {root dir p : Path} {R L here : Location} {k : Nat} {aim : Aim}
  {names more : List String} {l : Location} {cs : List Pattern.Component}

/-! ## Ways -/

/-- Where the same is on the way, components that go down lead as far. -/
theorem stretch_congr (aim : Aim) (hnames : Descending names)
    (h : ∀ y, y <+: names → t'.get? (here ++ y) = t.get? (here ++ y)) :
    stretch t' aim here names = stretch t aim here names := by
  induction names generalizing here with
  | nil => rfl
  | cons name rest ih =>
    have hrest : stretch t' aim (here ++ [name]) rest = stretch t aim (here ++ [name]) rest :=
      ih (fun n hn => hnames n (List.mem_cons_of_mem _ hn)) fun y hy => by
        rw [List.append_assoc]
        exact h _ ((List.prefix_cons_inj name).2 hy)
    have hhere : t'.get? here = t.get? here := by
      have := h [] (List.nil_prefix)
      rwa [List.append_nil] at this
    obtain ⟨hempty, hdot, hdots⟩ := hnames name List.mem_cons_self
    rw [stretch, stretch, hhere, h [name] ((List.prefix_cons_inj name).2 List.nil_prefix)]
    simp only [hempty, hdot, hdots, or_self, if_false, hrest]

/-- Without links the number of links that may be followed does not matter. -/
theorem locateFrom_of_noLinks (hnames : Descending names) (hlinks : NoLinks t here) (k : Nat) :
    locateFrom t aim k here names = locateFrom t aim 0 here names := by
  have hlink := (stretch_descending aim here hnames hlinks).2
  unfold locateFrom
  rcases hs : stretch t aim here names with l | reason | ⟨h, ns⟩
  · rfl
  · rfl
  · exact absurd hs (hlink h ns)

/-- Where the same is on the way, without links, components that go down lead to the same. -/
theorem locateFrom_congr (hnames : Descending names) (hlinks : NoLinks t here)
    (hlinks' : NoLinks t' here) (h : ∀ y, y <+: names → t'.get? (here ++ y) = t.get? (here ++ y))
    (k k' : Nat) : locateFrom t' aim k' here names = locateFrom t aim k here names := by
  rw [locateFrom_of_noLinks hnames hlinks' k', locateFrom_of_noLinks hnames hlinks k]
  have hlink := (stretch_descending aim here hnames hlinks).2
  unfold locateFrom
  rw [stretch_congr aim hnames h]
  rcases hs : stretch t aim here names with l | reason | ⟨h, ns⟩
  · rfl
  · rfl
  · exact absurd hs (hlink h ns)

/-! ## What is listed -/

/-- Where the same is below a location, the same is listed below it. -/
theorem below_congr (l : Location) (h : ∀ y, t'.get? (l ++ y) = t.get? (l ++ y)) :
    t'.below l = t.below l := by
  have hchildren : t'.children l = t.children l := children_eq fun name => h [name]
  rw [below, below, hchildren]
  refine List.flatMap_congr fun name hname => ?_
  have hsame : t'.get? (l ++ [name]) = t.get? (l ++ [name]) := h [name]
  obtain ⟨n, hn⟩ := mem_children.1 hname
  have hlt := countBelow_lt hn
  have hbelow := below_congr (l ++ [name]) fun y => by rw [List.append_assoc, h]
  rw [hn] at hsame
  simp only [hbelow]
  split <;> rename_i heq <;> split <;> rename_i heq' <;> simp_all
termination_by t.countBelow l
decreasing_by exact hlt

/-- What is listed in a directory has a name. -/
theorem isName_of_mem_list {name : String} (h : name ∈ t.list p) : isName name = true := by
  rw [Tree.list] at h
  split at h
  · split at h
    · obtain ⟨n, hn⟩ := mem_children.1 h
      exact isName_of_get? hn name (by simp)
    · cases h
  · cases h

/-- What is listed below a path goes down from there. -/
theorem exists_of_mem_under {n : Node} (hp : (p, n) ∈ t.under dir) :
    ∃ more, p = dir.within more ∧ Descending more := by
  rw [under] at hp
  rcases hl : t.locate dir with e | l
  · rw [hl] at hp
    cases hp
  rw [hl] at hp
  obtain ⟨m, hm, hnode⟩ := List.mem_filterMap.1 hp
  obtain ⟨r, n', -, rfl, hn'⟩ := exists_of_mem_below hm
  rw [hn', Option.map_some, Option.some.injEq, Prod.mk.injEq, List.drop_left] at hnode
  have hplain : Plain r := plain_of_get? hn'
  exact ⟨r, hnode.1.symm, hplain.descending⟩

theorem exists_of_mem_dirsUnder (hp : p ∈ t.dirsUnder dir) :
    ∃ more, p = dir.within more ∧ Descending more := by
  rcases List.mem_cons.1 hp with rfl | hp
  · exact ⟨[], Path.within_nil.symm, nofun⟩
  obtain ⟨⟨q, n⟩, hunder, hdir⟩ := List.mem_filterMap.1 hp
  obtain ⟨-, rfl⟩ : n = .dir ∧ q = p := by simpa using hdir
  exact exists_of_mem_under hunder

/-! ## Trees that are alike -/

/-- Whether what goes down from a directory leads to the same locations in two trees, and the same is at
these. -/
structure Alike (dir : Path) (L : Location) (t t' : Tree) : Prop where
  locate : ∀ more, Descending more → ∀ aim,
    t'.locate (dir.within more) aim = t.locate (dir.within more) aim
  lands : ∀ more, Descending more → ∀ aim l, t.locate (dir.within more) aim = .ok l → l = L ++ more
  same : ∀ y, t'.get? (L ++ y) = t.get? (L ++ y)

/-- Trees are alike below a directory whose root has its seat at one location, without links, when the
same is on the way and below. -/
theorem Alike.of_seat (hseat : Seat t root R k) (hseat' : Seat t' root R k) (hlinks : NoLinks t R)
    (hlinks' : NoLinks t' R) (hne : names ≠ []) (hnames : Descending names)
    (hsame : ∀ y, y <+: names ∨ names <+: y → t'.get? (R ++ y) = t.get? (R ++ y)) :
    Alike (root.within names) (R ++ names) t t' where
  locate more hmore aim := by
    have hne' : names ++ more ≠ [] := by simp [hne]
    have hall := hnames.append hmore
    obtain ⟨k₁, hk₁⟩ := hseat.locateFrom_onward aim hne' hall
    obtain ⟨k₂, hk₂⟩ := hseat'.locateFrom_onward aim hne' hall
    rw [Path.within_within, Tree.locate, Tree.locate]
    split
    · rfl
    · refine hk₂.trans ((locateFrom_congr hall hlinks hlinks' (fun y hy => hsame y ?_) k₁ k₂).trans
        hk₁.symm)
      exact List.prefix_or_prefix_of_prefix hy (List.prefix_append _ _)
  lands more hmore aim l hl := by
    rw [Path.within_within] at hl
    rw [hseat.locate_ok hlinks (by simp [hne]) (hnames.append hmore) hl, List.append_assoc]
  same y := by
    rw [List.append_assoc]
    exact hsame _ (.inr (List.prefix_append _ _))

/-- Trees are alike below a directory whose path leads to one location, without links, when the same is
there and below. -/
theorem Alike.of_locate (h : ∀ aim, t.locate dir aim = .ok L) (h' : ∀ aim, t'.locate dir aim = .ok L)
    (hdir : t.get? L = some .dir) (hlinks : NoLinks t L)
    (hsame : ∀ y, t'.get? (L ++ y) = t.get? (L ++ y)) : Alike dir L t t' := by
  have hlinks' : NoLinks t' L := fun y target hlink => hlinks y target (hsame y ▸ hlink)
  have hdir' : t'.get? L = some .dir := by
    have := hsame []
    rwa [List.append_nil, hdir] at this
  -- where the way on from the directory starts
  have honward : ∀ {u : Tree}, (∀ aim, u.locate dir aim = .ok L) → u.get? L = some .dir → NoLinks u L →
      ∀ more, more ≠ [] → Descending more → ∀ aim,
        locateFrom u aim linkBudget (u.startOf dir) (dir.parts ++ more) = locateFrom u aim 0 L more := by
    intro u hu hudir hulinks more hne hmore aim
    have hwhole := hu .target
    rw [Tree.locate] at hwhole
    split at hwhole
    · cases hwhole
    · obtain ⟨k, hk⟩ := locateFrom_onward aim hne
        (fun heq => (hmore "" (heq ▸ List.mem_singleton_self _)).1 rfl) hwhole hudir
      rw [hk, locateFrom_of_noLinks hmore hulinks]
  refine ⟨fun more hmore aim => ?_, fun more hmore aim l hl => ?_, hsame⟩
  all_goals by_cases hne : more = []
  · rw [hne, Path.within_nil, h, h']
  · rw [Tree.locate, Tree.locate]
    split
    · rfl
    · exact (honward h' hdir' hlinks' more hne hmore aim).trans
        ((locateFrom_congr hmore hlinks hlinks' (fun y _ => hsame y) 0 0).trans
          (honward h hdir hlinks more hne hmore aim).symm)
  · rw [hne, Path.within_nil, h] at hl
    rw [hne, List.append_nil, Except.ok.inj hl]
  · rw [Tree.locate] at hl
    split at hl
    · cases hl
    · have hfrom := (honward h hdir hlinks more hne hmore aim).symm.trans hl
      obtain ⟨harrived, hlink⟩ := stretch_descending aim L hmore hlinks
      unfold locateFrom at hfrom
      rcases hs : stretch t aim L more with l' | reason | ⟨h, ns⟩
      · rw [hs] at hfrom
        rw [← Except.ok.inj hfrom, harrived l' hs]
      · rw [hs] at hfrom
        cases hfrom
      · exact absurd hs (hlink h ns)

namespace Alike

variable (h : Alike dir L t t')

include h

theorem within (hmore : Descending more) : Alike (dir.within more) (L ++ more) t t' where
  locate more' hmore' aim := by
    rw [Path.within_within]
    exact h.locate _ (hmore.append hmore') aim
  lands more' hmore' aim l hl := by
    rw [Path.within_within] at hl
    rw [h.lands _ (hmore.append hmore') aim l hl, List.append_assoc]
  same y := by
    rw [List.append_assoc]
    exact h.same _

/-- The directory is at the same location in both. -/
theorem locate_eq (aim : Aim) : t'.locate dir aim = t.locate dir aim := by
  have := h.locate [] nofun aim
  rwa [Path.within_nil] at this

theorem eq_of_locate (hl : t.locate dir aim = .ok l) : l = L := by
  have := h.lands [] nofun aim l (by rwa [Path.within_nil])
  rwa [List.append_nil] at this

theorem get?_eq : t'.get? L = t.get? L := by
  have := h.same []
  rwa [List.append_nil] at this

theorem node? : t'.node? dir = t.node? dir := by
  rw [Tree.node?, Tree.node?, h.locate_eq]
  rcases hl : t.locate dir with e | l
  · rfl
  · obtain rfl := h.eq_of_locate hl
    exact h.get?_eq

theorem isFile : t'.isFile dir = t.isFile dir := by
  rw [Tree.isFile, Tree.isFile, h.node?]

theorem isDir : t'.isDir dir = t.isDir dir := by
  rw [Tree.isDir, Tree.isDir, h.node?]

theorem holds : t'.holds dir = t.holds dir := by
  rw [Tree.holds, Tree.holds, h.node?]

theorem occupies : t'.occupies dir = t.occupies dir := by
  have hitself : t'.nodeItself? dir = t.nodeItself? dir := by
    rw [Tree.nodeItself?, Tree.nodeItself?, h.locate_eq]
    rcases hl : t.locate dir .itself with e | l
    · rfl
    · obtain rfl := h.eq_of_locate hl
      exact h.get?_eq
  rw [Tree.occupies, Tree.occupies, h.holds, Tree.isLink, Tree.isLink, hitself]

/-- A question that is answered alike is asked alike. -/
theorem query {answer : Tree → Path → Bool} (hanswer : answer t' dir = answer t dir) :
    t'.query dir answer = t.query dir answer := by
  rw [Tree.query, Tree.query, h.locate_eq, hanswer]

theorem contentOf : t'.contentOf dir = t.contentOf dir := by
  have hplace : t'.place dir = t.place dir := by
    rw [place, place, placeOr, placeOr, h.locate_eq]
  rw [Tree.contentOf, Tree.contentOf, hplace]
  rcases hl : t.place dir with e | l
  · rfl
  · obtain rfl := h.eq_of_locate (locate_of_place hl)
    simp only [bind, Except.bind, h.get?_eq]

theorem list : t'.list dir = t.list dir := by
  rw [Tree.list, Tree.list, h.locate_eq]
  rcases hl : t.locate dir with e | l
  · rfl
  · obtain rfl := h.eq_of_locate hl
    have hchildren : t'.children l = t.children l := children_eq fun name => h.same [name]
    simp only [h.get?_eq, hchildren]

theorem under : t'.under dir = t.under dir := by
  rw [Tree.under, Tree.under, h.locate_eq]
  rcases hl : t.locate dir with e | l
  · rfl
  · obtain rfl := h.eq_of_locate hl
    have hbelow : t'.below l = t.below l := below_congr _ h.same
    simp only [hbelow]
    refine List.filterMap_congr fun m hm => ?_
    obtain ⟨r, n, -, rfl, -⟩ := exists_of_mem_below hm
    rw [h.same]

theorem filesUnder : t'.filesUnder dir = t.filesUnder dir := by
  rw [Tree.filesUnder, Tree.filesUnder, h.under]

theorem dirsUnder : t'.dirsUnder dir = t.dirsUnder dir := by
  rw [Tree.dirsUnder, Tree.dirsUnder, h.under]

/-- The directory can be walked alike. -/
theorem surveyed {there : Bool} (hthere : t.surveyed dir = .ok there) :
    t'.surveyed dir = .ok there := by
  refine surveyed_of_same (h.locate_eq .target) (fun D y hD => ?_) hthere
  obtain rfl := h.eq_of_locate hD
  exact h.same y

/-! ## What patterns select -/

/-- What components that go down select is the same. -/
theorem selectFrom (hcs : ∀ name, .exact name ∈ cs → Descending [name]) (dirsOnly : Bool) :
    Tree.selectFrom t' dirsOnly dir cs = Tree.selectFrom t dirsOnly dir cs := by
  induction cs generalizing dir L with
  | nil => rfl
  | cons c rest ih =>
    have hrest : ∀ name, .exact name ∈ rest → Descending [name] := fun name hname =>
      hcs name (List.mem_cons_of_mem c hname)
    cases c with
    | exact name =>
      have hnext := h.within (hcs name List.mem_cons_self)
      unfold Tree.selectFrom
      simp only [show (⟨dir.anchor, dir.parts ++ [name]⟩ : Path) = dir.within [name] from rfl,
        ih hnext hrest]
      split
      · rw [hnext.query hnext.holds]
      · rw [hnext.query hnext.isDir]
    | wild text =>
      unfold Tree.selectFrom
      rw [h.list]
      refine congrArg (· >>= fun found => pure found.flatten) (except_mapM_congr fun name hname => ?_)
      have hnext := h.within (Plain.descending (List.forall_mem_singleton.2 (isName_of_mem_list hname)))
      simp only [show (⟨dir.anchor, dir.parts ++ [name]⟩ : Path) = dir.within [name] from rfl,
        ih hnext hrest, hnext.query hnext.isDir]
    | descend =>
      unfold Tree.selectFrom
      rw [h.dirsUnder]
      refine congrArg (List.flatten <$> ·) (except_mapM_congr fun d hd => ?_)
      obtain ⟨more, rfl, hmore⟩ := exists_of_mem_dirsUnder hd
      exact ih (h.within hmore) hrest

/-- What a pattern whose components go down selects is the same. -/
theorem select {pattern : Pattern} (hpattern : ∀ name, .exact name ∈ pattern.components →
    Descending [name]) : t'.select dir pattern = t.select dir pattern := by
  rw [Tree.select, Tree.select, h.query h.isDir]
  simp only [h.selectFrom hpattern]

end Alike

end Tree

end Sysroot

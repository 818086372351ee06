import Sysroot.Proofs.Tree.Refusals
import Sysroot.Proofs.Tree.Seat
import Sysroot.Tree.Walk

/-!
# What a walk lists

A directory lists its names once each (`mem_children`, `nodup_children`), and what is below it is
listed completely (`mem_filesUnder`).  A walk asks each directory whether it is a link before it
goes on into it, and is refused when the path of one is too long to be asked about.  Otherwise it
gives each file and each link below the directory once, a link as itself, and nothing through a
link (`walk_listsOnce`).  For one directory that is an equation (`walkFrom_of_fits`, `walkFrom_ok`);
whole walks follow by induction on what is below.
-/

namespace Sysroot.Tree

open Effect

variable {t t' : Tree} {dir p source : Path} {D l r : Location} {name : String} {n : Node}
  {aim : Aim} {sources : List Path}

/-! ## What is in a directory -/

theorem mem_children : name ∈ t.children l ↔ ∃ n, t.get? (l ++ [name]) = some n := by
  rw [children, List.mem_mergeSort, List.mem_filterMap]
  constructor
  · rintro ⟨⟨m, n⟩, hmem, hif⟩
    split at hif
    · next hdrop =>
      have hne : m ≠ [] := by
        rintro rfl
        cases hif
      have hlast : m.getLast hne = name := by
        rw [List.getLast?_eq_some_getLast hne] at hif
        exact Option.some.inj hif
      have hm : l ++ [name] = m := by
        rw [← hlast, ← show m.dropLast = l from hdrop, List.dropLast_concat_getLast]
      exact ⟨n, hm ▸ (get?_eq_some_iff hne).2 hmem⟩
    · cases hif
  · rintro ⟨n, hn⟩
    refine ⟨(l ++ [name], n), (get?_eq_some_iff (by simp)).1 hn, ?_⟩
    simp

theorem nodup_children (t : Tree) (L : Location) : (t.children L).Nodup := by
  refine (List.mergeSort_perm _ _).nodup_iff.2 ?_
  rw [List.Nodup, List.pairwise_filterMap]
  refine (List.pairwise_map.1 t.nodup).imp fun {p q} hpq name hname name' hname' heq => hpq ?_
  have hlocation : ∀ {p : Location × Node} {name : String},
      (if p.1.dropLast = L then p.1.getLast? else none) = some name → p.1 = L ++ [name] := by
    intro p name hp
    split at hp
    · next hdrop =>
      have hne : p.1 ≠ [] := by
        intro hnil
        rw [hnil] at hp
        cases hp
      rw [List.getLast?_eq_some_getLast hne] at hp
      rw [← Option.some.inj hp, ← hdrop, List.dropLast_concat_getLast]
    · cases hp
  rw [hlocation hname, hlocation hname', heq]


/-! ## What is below a directory -/

/-- What is listed below a location is somewhere below it. -/
theorem exists_of_mem_below {l m : Location} (h : m ∈ t.below l) :
    ∃ r n, r ≠ [] ∧ m = l ++ r ∧ t.get? m = some n := by
  rw [below, List.mem_flatMap] at h
  obtain ⟨name, -, h⟩ := h
  split at h
  · next hdir =>
    have hlt := countBelow_lt hdir
    rcases List.mem_cons.1 h with rfl | h
    · exact ⟨[name], _, List.cons_ne_nil _ _, rfl, hdir⟩
    · obtain ⟨r, n, -, rfl, hn⟩ := exists_of_mem_below h
      exact ⟨name :: r, n, List.cons_ne_nil _ _, by simp, hn⟩
  · next hn =>
    rw [List.mem_singleton] at h
    subst h
    exact ⟨[name], _, List.cons_ne_nil _ _, rfl, hn⟩
  · exact absurd h List.not_mem_nil
termination_by t.countBelow l
decreasing_by assumption

/-- A source below a directory is a file or a link there. -/
theorem exists_of_mem_filesUnder (h : source ∈ t.filesUnder dir) :
    ∃ d r n, t.locate dir = .ok d ∧ r ≠ [] ∧ source = dir.within r ∧ t.get? (d ++ r) = some n ∧
      n ≠ .dir := by
  rw [filesUnder, List.mem_filterMap] at h
  obtain ⟨⟨q, n⟩, hunder, hfile⟩ := h
  rw [under] at hunder
  rcases hlocate : t.locate dir with e | d
  · rw [hlocate] at hunder
    exact absurd hunder List.not_mem_nil
  rw [hlocate] at hunder
  obtain ⟨m, hm, hnode⟩ := List.mem_filterMap.1 hunder
  obtain ⟨r, n', hr, rfl, hn'⟩ := exists_of_mem_below hm
  rw [hn', Option.map_some, Option.some.injEq, Prod.mk.injEq, List.drop_left] at hnode
  obtain ⟨rfl, rfl⟩ := hnode
  have hfile : (if n' = .dir then none else some (⟨dir.anchor, dir.parts ++ r⟩ : Path)) =
    some source := hfile
  by_cases hne : n' = .dir
  · rw [if_pos hne] at hfile
    cases hfile
  · rw [if_neg hne] at hfile
    exact ⟨d, r, n', rfl, hr, (Option.some.inj hfile).symm, hn', hne⟩

/-- Whatever is somewhere below a location is listed. -/
theorem mem_below (hr : r ≠ []) (hn : t.get? (l ++ r) = some n) : l ++ r ∈ t.below l := by
  induction r generalizing l with
  | nil => exact absurd rfl hr
  | cons name rest ih =>
    have hassoc : l ++ name :: rest = l ++ [name] ++ rest := by simp
    rw [hassoc] at hn ⊢
    rw [below, List.mem_flatMap]
    by_cases hrest : rest = []
    · rw [hrest, List.append_nil] at hn ⊢
      refine ⟨name, mem_children.2 ⟨n, hn⟩, ?_⟩
      split
      · exact List.mem_cons_self
      · exact List.mem_singleton_self _
      · next hnone =>
        rw [hnone] at hn
        cases hn
    · have hdir : t.get? (l ++ [name]) = some .dir := get?_of_append hn hrest
      refine ⟨name, mem_children.2 ⟨_, hdir⟩, ?_⟩
      split
      · exact List.mem_cons_of_mem _ (ih hrest hn)
      · next n' hne hn' => exact absurd (hdir.symm.trans hn') fun heq => hne (Option.some.inj heq).symm
      · next hnone =>
        rw [hnone] at hdir
        cases hdir

/-- Every file or link below a directory is listed. -/
theorem mem_filesUnder (hlocate : t.locate dir = .ok D) :
    source ∈ t.filesUnder dir ↔
      ∃ r n, r ≠ [] ∧ source = dir.within r ∧ t.get? (D ++ r) = some n ∧ n ≠ .dir := by
  constructor
  · intro h
    obtain ⟨D', r, n, hlocate', hr, hsource, hn, hne⟩ := exists_of_mem_filesUnder h
    obtain rfl := Except.ok.inj (hlocate.symm.trans hlocate')
    exact ⟨r, n, hr, hsource, hn, hne⟩
  · rintro ⟨r, n, hr, rfl, hn, hne⟩
    rw [filesUnder, List.mem_filterMap]
    refine ⟨(dir.within r, n), ?_, if_neg hne⟩
    rw [under, hlocate]
    refine List.mem_filterMap.2 ⟨D ++ r, mem_below hr hn, ?_⟩
    rw [hn, List.drop_left]
    rfl

/-- A path to something has no NUL in its text. -/
theorem hasNull_of_locate {d : Location} {n : Node} (h : t.locate dir = .ok d)
    (hn : t.get? d = some n) :
    hasNull dir.text = false := by
  rw [locate] at h
  split at h
  · cases h
  · cases hnull : hasNull dir.text with
    | false => rfl
    | true =>
      obtain ⟨name, hname, hno⟩ := Path.hasNull_text.1 hnull
      exact absurd hno (locateFrom_null h hn name hname)

/-! ## One step of a walk -/

theorem isDir_iff : t.isDir dir = true ↔ ∃ D, t.locate dir = .ok D ∧ t.get? D = some .dir := by
  rw [isDir, decide_eq_true_eq, node?]
  rcases t.locate dir with e | D
  · simp
  · simp

theorem within_injective {x y : List String} (h : p.within x = p.within y) : x = y :=
  List.append_cancel_left (congrArg Path.parts h)

/-- What is below a place is found by its names, if their text is not too long, and a link by those
who do not follow it. -/
theorem locate_within (h : t.locate p = .ok l) (hr : r ≠ []) (hn : t.get? (l ++ r) = some n)
    (hfits : Fits p r) (haim : aim = .itself ∨ ∀ target, n ≠ .link target) :
    t.locate (p.within r) aim = .ok (l ++ r) := by
  have hplain : Plain r := plain_of_get? hn
  have hfrom : locateFrom t .target linkBudget (t.startOf p) p.parts = .ok l := by
    rw [locate] at h
    split at h
    · cases h
    · exact h
  obtain ⟨k, hk⟩ := locateFrom_onward aim hr hplain.ne_slash hfrom (get?_of_append hn hr)
  rw [locate, if_neg (Nat.not_lt.2 hfits)]
  refine Eq.trans hk ?_
  obtain ⟨front, last, rfl⟩ := (List.eq_nil_or_concat' r).resolve_left hr
  refine locateFrom_concat hplain (get?_of_concat hn) (haim.imp_right fun hlink target heq => ?_)
  exact hlink target (Option.some.inj (hn.symm.trans heq))

theorem locate_dir (h : t.locate p = .ok l) (hdir : t.get? (l ++ [name]) = some .dir)
    (hfits : Fits p [name]) : t.locate (p.within [name]) aim = .ok (l ++ [name]) :=
  locate_within h (List.cons_ne_nil _ _) hdir hfits (.inr nofun)

/-- A directory is no link, if its path can be asked about. -/
theorem query_isLink_dir (h : t.locate p = .ok l) (hdir : t.get? (l ++ [name]) = some .dir) :
    t.query (p.within [name]) isLink =
      if Fits p [name] then .ok false
      else .error (.refused .nameTooLong (p.within [name]).text) := by
  split
  · next hfits =>
    rw [query_eq_ok (by rw [locate_dir h hdir hfits]; exact nofun), isLink, nodeItself?,
      locate_dir h hdir hfits]
    simp only [hdir]
  · next hfits =>
    have hnull := hasNull_of_locate h (get?_of_append hdir (List.cons_ne_nil _ _))
    exact query_of_not_fits hnull (plain_of_get? hdir) hfits

theorem fits_of_query {answer : Bool} (h : t.locate p = .ok l)
    (hdir : t.get? (l ++ [name]) = some .dir)
    (hquery : t.query (p.within [name]) isLink = .ok answer) : Fits p [name] := by
  by_contra hno
  rw [query_isLink_dir h hdir, if_neg hno] at hquery
  cases hquery

/-- A link that leads to a directory is one, and its path can be asked about. -/
theorem query_isLink_of_isDir {target : String} (h : t.locate p = .ok l)
    (hlink : t.get? (l ++ [name]) = some (.link target)) (hdir : t.isDir (p.within [name]) = true) :
    t.query (p.within [name]) isLink = .ok true := by
  obtain ⟨d, hd, -⟩ := isDir_iff.1 hdir
  have hfits : Fits p [name] := by
    by_contra hno
    rw [locate_of_not_fits hno] at hd
    cases hd
  have hitself : t.locate (p.within [name]) .itself = .ok (l ++ [name]) :=
    locate_within h (List.cons_ne_nil _ _) hlink hfits (.inl rfl)
  rw [query_eq_ok (by rw [hd]; exact nofun), isLink, nodeItself?, hitself]
  simp only [hlink]

/-- What leads to a directory is one, or a link to one. -/
theorem opensDir_iff : t.opensDir p l name = true ↔ t.get? (l ++ [name]) = some .dir ∨
    (∃ target, t.get? (l ++ [name]) = some (.link target)) ∧ t.isDir (p.within [name]) = true := by
  rw [opensDir]
  rcases t.get? (l ++ [name]) with _ | (_ | target | _)
  · simp
  · simp
  · simp [Path.within]
  · simp

/-- The names of the directories in a directory. -/
def dirsIn (t : Tree) (l : Location) : List String :=
  (t.children l).filter fun name => t.get? (l ++ [name]) = some .dir

/-- The names of what else is in a directory, links to directories last. -/
def leavesIn (t : Tree) (p : Path) (l : Location) : List String :=
  ((t.children l).filter fun name => !t.opensDir p l name) ++
    ((t.children l).filter (t.opensDir p l)).filter fun name => t.get? (l ++ [name]) ≠ some .dir

theorem mem_dirsIn : name ∈ t.dirsIn l ↔ t.get? (l ++ [name]) = some .dir := by
  rw [dirsIn, List.mem_filter, mem_children, decide_eq_true_eq]
  exact ⟨And.right, fun h => ⟨⟨_, h⟩, h⟩⟩

theorem mem_leavesIn :
    name ∈ t.leavesIn p l ↔ ∃ n, t.get? (l ++ [name]) = some n ∧ n ≠ .dir := by
  simp only [leavesIn, List.mem_append, List.mem_filter, mem_children, decide_eq_true_eq,
    Bool.not_eq_true', ne_eq]
  constructor
  · rintro (⟨⟨n, hn⟩, hopens⟩ | ⟨⟨⟨n, hn⟩, -⟩, hdir⟩)
    · refine ⟨n, hn, fun heq => ?_⟩
      rw [opensDir_iff.2 (.inl (heq ▸ hn))] at hopens
      cases hopens
    · exact ⟨n, hn, fun heq => hdir (heq ▸ hn)⟩
  · rintro ⟨n, hn, hne⟩
    cases hopens : t.opensDir p l name with
    | false => exact .inl ⟨⟨n, hn⟩, rfl⟩
    | true => exact .inr ⟨⟨⟨n, hn⟩, rfl⟩, fun heq => hne (Option.some.inj (hn.symm.trans heq))⟩

theorem nodup_leavesIn (t : Tree) (p : Path) (l : Location) : (t.leavesIn p l).Nodup := by
  have hnodup := nodup_children t l
  refine List.nodup_append.2 ⟨hnodup.filter _, (hnodup.filter _).filter _, ?_⟩
  rintro name hname _ hname' rfl
  have hno := (List.mem_filter.1 hname).2
  rw [(List.mem_filter.1 (List.mem_filter.1 hname').1).2] at hno
  cases hno

/-- The files and links that a walk gives. -/
def listed (t : Tree) (p : Path) (l : Location) : List Path := (t.walkFrom p l).toOption.getD []

/-- When all directories in a directory can be asked about, a walk gives what else is in it, and
then what it gives for each of them. -/
theorem walkFrom_of_fits (h : t.locate p = .ok l) (hfits : ∀ name ∈ t.dirsIn l, Fits p [name]) :
    t.walkFrom p l = do
      let deeper ← (t.dirsIn l).mapM fun name => t.walkFrom (p.within [name]) (l ++ [name])
      return (t.leavesIn p l).map (fun name => p.within [name]) ++ deeper.flatten := by
  have hlinks : ((t.children l).filter (t.opensDir p l)).filterM
      (fun name => t.query (p.within [name]) isLink) =
      .ok (((t.children l).filter (t.opensDir p l)).filter fun name =>
        t.get? (l ++ [name]) ≠ some .dir) := by
    refine except_filterM_of_ok fun name hname => ?_
    rcases opensDir_iff.1 (List.mem_filter.1 hname).2 with hdir | ⟨⟨target, hlink⟩, hdir⟩
    · rw [query_isLink_dir h hdir, if_pos (hfits name (mem_dirsIn.2 hdir)), hdir]
      simp
    · rw [query_isLink_of_isDir h hlink hdir, hlink]
      simp
  have hrest : ((t.children l).filter (t.opensDir p l)).removeAll
      (((t.children l).filter (t.opensDir p l)).filter fun name =>
        t.get? (l ++ [name]) ≠ some .dir) = t.dirsIn l := by
    rw [List.removeAll, List.filter_filter, dirsIn]
    refine List.filter_congr fun name hname => ?_
    rw [Bool.eq_iff_iff]
    simp only [Bool.and_eq_true, Bool.not_eq_true', List.elem_eq_mem, decide_eq_false_iff_not,
      List.mem_filter, decide_eq_true_eq, ne_eq, not_and, not_not]
    exact ⟨fun hx => hx.1 ⟨hname, hx.2⟩, fun hdir => ⟨fun _ => hdir, opensDir_iff.2 (.inl hdir)⟩⟩
  rw [walkFrom]
  show (((t.children l).filter (t.opensDir p l)).filterM
    (fun name => t.query (p.within [name]) isLink) >>= _) = _
  rw [hlinks, except_ok_bind, hrest]
  refine congrArg (· >>= _) (except_mapM_congr fun name hname => ?_)
  split
  · rfl
  · next hno => exact absurd (mem_dirsIn.1 hname) hno

/-! ## Whole walks -/

/-- Whether the paths of all directories below a location, which a path leads to, can be asked
about. -/
def Walkable (t : Tree) (p : Path) (l : Location) : Prop :=
  ∀ r, r ≠ [] → t.get? (l ++ r) = some .dir → Fits p r

/-- A walk is refused only for the path of a directory that is too long to be asked about. -/
theorem failsBy_walkFrom {p : Path} {l : Location} (h : t.locate p = .ok l) :
    FailsBy (fun e => ∃ r, r ≠ [] ∧ t.get? (l ++ r) = some .dir ∧ ¬ Fits p r ∧
      e = .refused .nameTooLong (p.within r).text) (t.walkFrom p l) := by
  rw [walkFrom]
  refine FailsBy.bind_ok (FailsBy.filterM fun name hname => ?_) fun links hlinks =>
    FailsBy.bind (FailsBy.mapM fun name hname => ?_) fun _ => failsBy_ok _
  · show FailsBy _ (t.query (p.within [name]) isLink)
    rcases opensDir_iff.1 (List.mem_filter.1 hname).2 with hdir | ⟨⟨target, hlink⟩, hdir⟩
    · rw [query_isLink_dir h hdir]
      split
      · exact failsBy_ok _
      · next hno => exact failsBy_error ⟨[name], List.cons_ne_nil _ _, hdir, hno, rfl⟩
    · rw [query_isLink_of_isDir h hlink hdir]
      exact failsBy_ok _
  · split
    · next hdir =>
      -- the walk goes on only where the question was answered
      obtain ⟨answer, hanswer, -⟩ := except_mem_of_filterM hlinks (List.mem_filter.1 hname).1
      refine (failsBy_walkFrom (locate_dir h hdir (fits_of_query h hdir hanswer))).mono ?_
      rintro e ⟨r, -, hr, hno, rfl⟩
      refine ⟨name :: r, List.cons_ne_nil _ _, by simpa using hr, ?_, ?_⟩
      · rwa [Fits, Path.within_within] at hno
      · rw [Path.within_within]
        rfl
    · exact failsBy_ok _
termination_by t.countBelow l
decreasing_by exact countBelow_lt (by assumption)

/-- What a walk asks about is not refused when the walk is not. -/
theorem fits_of_walkFrom (h : t.locate p = .ok l) (hwalk : t.walkFrom p l = .ok sources)
    (hname : name ∈ t.dirsIn l) : Fits p [name] := by
  have hdir := mem_dirsIn.1 hname
  rw [walkFrom] at hwalk
  obtain ⟨links, hlinks, -⟩ := except_bind_ok hwalk
  obtain ⟨answer, hanswer, -⟩ := except_mem_of_filterM hlinks
    (List.mem_filter.2 ⟨(List.mem_filter.1 hname).1, opensDir_iff.2 (.inl hdir)⟩)
  exact fits_of_query h hdir hanswer

/-- A walk that is not refused goes on into each directory. -/
theorem walkFrom_onward (h : t.locate p = .ok l) (hwalk : t.walkFrom p l = .ok sources)
    (hname : name ∈ t.dirsIn l) : Fits p [name] ∧
      t.locate (p.within [name]) = .ok (l ++ [name]) ∧
      t.walkFrom (p.within [name]) (l ++ [name]) = .ok (t.listed (p.within [name]) (l ++ [name])) := by
  have hfits : ∀ name ∈ t.dirsIn l, Fits p [name] := fun _ => fits_of_walkFrom h hwalk
  refine ⟨hfits name hname, ?_, ?_⟩
  · exact locate_dir h (mem_dirsIn.1 hname) (hfits name hname)
  · rw [walkFrom_of_fits h hfits] at hwalk
    obtain ⟨deeper, hdeeper, -⟩ := except_bind_ok hwalk
    obtain ⟨found, -, hfound⟩ := except_mem_of_mapM hdeeper hname
    rw [listed, hfound]
    rfl

/-- A walk gives what is in the directory and then what it gives for each directory there. -/
theorem walkFrom_ok (h : t.locate p = .ok l) (hwalk : t.walkFrom p l = .ok sources) :
    sources = (t.leavesIn p l).map (fun name => p.within [name]) ++
      (t.dirsIn l).flatMap fun name => t.listed (p.within [name]) (l ++ [name]) := by
  have hdeeper : ((t.dirsIn l).mapM fun name => t.walkFrom (p.within [name]) (l ++ [name])) =
      .ok ((t.dirsIn l).map fun name => t.listed (p.within [name]) (l ++ [name])) :=
    except_mapM_of_ok fun name hname => (walkFrom_onward h hwalk hname).2.2
  rw [walkFrom_of_fits h fun name => fits_of_walkFrom h hwalk, hdeeper, except_ok_bind] at hwalk
  rw [← Except.ok.inj hwalk, List.flatMap]

/-- A walk that is not refused has asked about all directories below. -/
theorem walkable_of_walkFrom {p : Path} {l : Location} {sources : List Path}
    (h : t.locate p = .ok l) (hwalk : t.walkFrom p l = .ok sources) : t.Walkable p l := by
  intro r hr hdir
  obtain ⟨name, rest, rfl⟩ := List.exists_cons_of_ne_nil hr
  have hassoc : l ++ name :: rest = l ++ [name] ++ rest := by simp
  rw [hassoc] at hdir
  by_cases hrest : rest = []
  · rw [hrest, List.append_nil] at hdir
    rw [hrest]
    exact fits_of_walkFrom h hwalk (mem_dirsIn.2 hdir)
  · have hnext : t.get? (l ++ [name]) = some .dir := get?_of_append hdir hrest
    obtain ⟨-, hlocate, honward⟩ := walkFrom_onward h hwalk (mem_dirsIn.2 hnext)
    have hfits := walkable_of_walkFrom hlocate honward rest hrest hdir
    rwa [Fits, Path.within_within] at hfits
termination_by t.countBelow l
decreasing_by exact countBelow_lt hnext

/-- A walk comes to its end exactly when all directories below can be asked about. -/
theorem walkFrom_iff (h : t.locate p = .ok l) :
    (∃ sources, t.walkFrom p l = .ok sources) ↔ t.Walkable p l := by
  refine ⟨fun ⟨sources, hwalk⟩ => walkable_of_walkFrom h hwalk, fun hall => ?_⟩
  rcases hwalk : t.walkFrom p l with e | sources
  · obtain ⟨r, hr, hdir, hno, -⟩ := failsBy_walkFrom h e hwalk
    exact absurd (hall r hr hdir) hno
  · exact ⟨sources, rfl⟩

/-- A walk gives the files and links somewhere below and nothing else. -/
theorem mem_walkFrom {p : Path} {l : Location} {sources : List Path} (h : t.locate p = .ok l)
    (hwalk : t.walkFrom p l = .ok sources) : source ∈ sources ↔
      ∃ r n, r ≠ [] ∧ source = p.within r ∧ t.get? (l ++ r) = some n ∧ n ≠ .dir := by
  have hdeeper : ∀ {name}, t.get? (l ++ [name]) = some .dir →
      (source ∈ t.listed (p.within [name]) (l ++ [name]) ↔ ∃ r n, r ≠ [] ∧
        source = p.within (name :: r) ∧ t.get? (l ++ name :: r) = some n ∧ n ≠ .dir) := by
    intro name hdir
    obtain ⟨-, hlocate, honward⟩ := walkFrom_onward h hwalk (mem_dirsIn.2 hdir)
    rw [mem_walkFrom hlocate honward]
    simp only [Path.within_within, List.append_assoc, List.singleton_append]
  rw [walkFrom_ok h hwalk, List.mem_append, List.mem_map, List.mem_flatMap]
  constructor
  · rintro (⟨name, hname, rfl⟩ | ⟨name, hname, hsource⟩)
    · obtain ⟨n, hn, hne⟩ := mem_leavesIn.1 hname
      exact ⟨[name], n, List.cons_ne_nil _ _, rfl, hn, hne⟩
    · obtain ⟨r, n, -, heq, hn, hne⟩ := (hdeeper (mem_dirsIn.1 hname)).1 hsource
      exact ⟨name :: r, n, List.cons_ne_nil _ _, heq, hn, hne⟩
  · rintro ⟨r, n, hr, rfl, hn, hne⟩
    obtain ⟨name, rest, rfl⟩ := List.exists_cons_of_ne_nil hr
    by_cases hrest : rest = []
    · subst hrest
      exact .inl ⟨name, mem_leavesIn.2 ⟨n, hn, hne⟩, rfl⟩
    · have hassoc : l ++ name :: rest = l ++ [name] ++ rest := by simp
      have hdir : t.get? (l ++ [name]) = some .dir := get?_of_append (hassoc ▸ hn) hrest
      exact .inr ⟨name, mem_dirsIn.2 hdir, (hdeeper hdir).2 ⟨rest, n, hrest, rfl, hn, hne⟩⟩
termination_by t.countBelow l
decreasing_by exact countBelow_lt hdir

/-- A walk gives nothing twice. -/
theorem nodup_walkFrom {p : Path} {l : Location} {sources : List Path} (h : t.locate p = .ok l)
    (hwalk : t.walkFrom p l = .ok sources) : sources.Nodup := by
  -- what is given for a directory has the name of the directory in its path, and a name after it
  have hbelow : ∀ name ∈ t.dirsIn l, ∀ q ∈ t.listed (p.within [name]) (l ++ [name]),
      ∃ r, r ≠ [] ∧ q = p.within (name :: r) := by
    intro name hname q hq
    obtain ⟨-, hlocate, honward⟩ := walkFrom_onward h hwalk hname
    obtain ⟨r, -, hr, rfl, -⟩ := (mem_walkFrom hlocate honward).1 hq
    exact ⟨r, hr, Path.within_within⟩
  rw [walkFrom_ok h hwalk]
  refine List.nodup_append.2 ⟨?_, List.nodup_flatMap.2 ⟨fun name hname => ?_, ?_⟩, ?_⟩
  · exact (nodup_leavesIn t p l).map fun name name' heq =>
      List.singleton_inj.1 (within_injective heq)
  · have hdir := mem_dirsIn.1 hname
    obtain ⟨-, hlocate, honward⟩ := walkFrom_onward h hwalk hname
    exact nodup_walkFrom hlocate honward
  · refine ((nodup_children t l).filter _).imp_of_mem fun {name name'} hname hname' hne => ?_
    refine List.disjoint_left.2 fun q hq hq' => hne ?_
    obtain ⟨r, -, rfl⟩ := hbelow name hname q hq
    obtain ⟨r', -, heq⟩ := hbelow name' hname' _ hq'
    exact (List.cons.inj (within_injective heq)).1
  · rintro q hq _ hq' rfl
    obtain ⟨name, -, rfl⟩ := List.mem_map.1 hq
    obtain ⟨name', hname', hq'⟩ := List.mem_flatMap.1 hq'
    obtain ⟨r, hr, heq⟩ := hbelow name' hname' _ hq'
    exact hr (List.cons.inj (within_injective heq)).2.symm
termination_by t.countBelow l
decreasing_by exact countBelow_lt hdir

/-! ## Walking a directory -/

theorem walk_of_locate (h : t.locate dir = .ok D) : t.walk dir = t.walkFrom dir D := by
  rw [walk, h]

/-- A walk gives what is listed below the directory. -/
theorem mem_walk (h : t.walk dir = .ok sources) : source ∈ sources ↔ source ∈ t.filesUnder dir := by
  rcases hlocate : t.locate dir with e | D
  · rw [walk, hlocate] at h
    rw [filesUnder, under, hlocate, ← Except.ok.inj h]
    rfl
  · rw [walk_of_locate hlocate] at h
    rw [mem_walkFrom hlocate h, mem_filesUnder hlocate]

/-! ## What a walk gives -/

/-- Whether paths are those of the files and links somewhere below a location, to which a path leads:
each is there once and nothing else is, only directories are on the way to one, and a link is there as
itself. -/
structure ListsOnce (t : Tree) (dir : Path) (D : Location) (sources : List Path) : Prop where
  once : ∀ r n, r ≠ [] → t.get? (D ++ r) = some n → n ≠ .dir → sources.count (dir.within r) = 1
  only : ∀ q ∈ sources, ∃ r n, r ≠ [] ∧ q = dir.within r ∧ t.get? (D ++ r) = some n ∧ n ≠ .dir
  unlinked : ∀ r, dir.within r ∈ sources → ∀ front, front <+: r → front ≠ r →
    t.get? (D ++ front) = some .dir
  itself : ∀ r, dir.within r ∈ sources → Fits dir r →
    t.locate (dir.within r) .itself = .ok (D ++ r)

theorem ListsOnce.nodup (h : t.ListsOnce dir D sources) : sources.Nodup := by
  refine List.nodup_iff_count_eq_one.2 fun q hq => ?_
  obtain ⟨r, n, hr, rfl, hn, hne⟩ := h.only q hq
  exact h.once r n hr hn hne

theorem ListsOnce.mem_iff (h : t.ListsOnce dir D sources) : source ∈ sources ↔
    ∃ r n, r ≠ [] ∧ source = dir.within r ∧ t.get? (D ++ r) = some n ∧ n ≠ .dir := by
  refine ⟨h.only source, ?_⟩
  rintro ⟨r, n, hr, rfl, hn, hne⟩
  refine List.count_pos_iff.1 ?_
  rw [h.once r n hr hn hne]
  exact Nat.one_pos

theorem listsOnce_of_walk (hlocate : t.locate dir = .ok D) (hwalk : t.walk dir = .ok sources) :
    t.ListsOnce dir D sources := by
  rw [walk_of_locate hlocate] at hwalk
  have hmem : ∀ q, q ∈ sources ↔
      ∃ r n, r ≠ [] ∧ q = dir.within r ∧ t.get? (D ++ r) = some n ∧ n ≠ .dir := fun _ =>
    mem_walkFrom hlocate hwalk
  have hnode : ∀ r, dir.within r ∈ sources → r ≠ [] ∧ ∃ n, t.get? (D ++ r) = some n := by
    intro r hr
    obtain ⟨r', n, hne, heq, hn, -⟩ := (hmem _).1 hr
    obtain rfl := within_injective heq
    exact ⟨hne, n, hn⟩
  refine ⟨fun r n hr hn hne => ?_, fun q hq => (hmem q).1 hq, fun r hr front hfront hne => ?_,
    fun r hr hfits => ?_⟩
  · exact List.count_eq_one_of_mem (nodup_walkFrom hlocate hwalk)
      ((hmem _).2 ⟨r, n, hr, rfl, hn, hne⟩)
  · obtain ⟨-, n, hn⟩ := hnode r hr
    exact get?_of_above hn ((List.prefix_append_right_inj D).2 hfront)
      fun heq => hne (List.append_cancel_left heq)
  · obtain ⟨hne, n, hn⟩ := hnode r hr
    exact locate_within hlocate hne hn hfits (.inl rfl)

/-- A walk of a directory gives every file and every link below it once, links as themselves, and
nothing that is reached through a link.  It does not get that far exactly when there is a directory
below whose path is too long to be asked about; then it is refused for such a path. -/
theorem walk_listsOnce (hlocate : t.locate dir = .ok D) :
    (t.Walkable dir D → ∃ sources, t.walk dir = .ok sources ∧ t.ListsOnce dir D sources) ∧
      (¬ t.Walkable dir D → ∃ r, r ≠ [] ∧ t.get? (D ++ r) = some .dir ∧ ¬ Fits dir r ∧
        t.walk dir = .error (.refused .nameTooLong (dir.within r).text)) := by
  constructor
  · intro hwalkable
    obtain ⟨sources, hwalk⟩ := (walkFrom_iff hlocate).2 hwalkable
    rw [← walk_of_locate hlocate] at hwalk
    exact ⟨sources, hwalk, listsOnce_of_walk hlocate hwalk⟩
  · intro hno
    rcases hwalk : t.walk dir with e | sources
    · rw [walk_of_locate hlocate] at hwalk
      obtain ⟨r, hr, hdir, hlong, rfl⟩ := failsBy_walkFrom hlocate e hwalk
      exact ⟨r, hr, hdir, hlong, rfl⟩
    · rw [walk_of_locate hlocate] at hwalk
      exact absurd ((walkFrom_iff hlocate).1 ⟨sources, hwalk⟩) hno

/-- A directory with files, links to a file, to the directory itself and to nothing, and directories of
which one is empty. -/
def branching : Tree where
  entries := [(["stage"], .dir), (["stage", "a.h"], .file [] false), (["stage", "empty"], .dir),
    (["stage", "gone"], .link "nowhere"), (["stage", "other.h"], .link "a.h"), (["stage", "sub"], .dir),
    (["stage", "sub", "b.h"], .file [] false), (["stage", "sub", "up"], .link "..")]
  nodup := by decide
  root_free := by decide
  housed := by decide
  named := by decide +kernel
  home := []

theorem dirs_branching (hr : r ≠ []) (h : branching.get? (["stage"] ++ r) = some .dir) :
    r = ["empty"] ∨ r = ["sub"] := by
  have hmem := (get?_eq_some_iff (by simp)).1 h
  simpa [branching, hr] using hmem

theorem leaves_branching : (∃ n, r ≠ [] ∧ branching.get? (["stage"] ++ r) = some n ∧ n ≠ .dir) ↔
    r ∈ [["a.h"], ["gone"], ["other.h"], ["sub", "b.h"], ["sub", "up"]] := by
  constructor
  · rintro ⟨n, hr, hn, hne⟩
    have hmem := (get?_eq_some_iff (by simp)).1 hn
    simp only [branching, List.singleton_append, List.mem_cons, Prod.mk.injEq, List.cons.injEq, hr,
      hne, true_and, and_false, false_or, List.not_mem_nil, or_false] at hmem
    rcases hmem with ⟨rfl, -⟩ | ⟨rfl, -⟩ | ⟨rfl, -⟩ | ⟨rfl, -⟩ | ⟨rfl, -⟩ <;> decide
  · intro hr
    simp only [List.mem_cons, List.not_mem_nil, or_false] at hr
    rcases hr with rfl | rfl | rfl | rfl | rfl <;>
      exact ⟨_, List.cons_ne_nil _ _, rfl, by decide⟩

/-- The directory by a path that goes up from the root again and again. -/
def roundabout : Path := ⟨.relative, List.replicate 1362 ".." ++ ["stage"]⟩

theorem size_join_upward (k : Nat) {names : List String} (h : names ≠ []) :
    (Text.join "/" (List.replicate k ".." ++ names)).utf8ByteSize =
      3 * k + (Text.join "/" names).utf8ByteSize := by
  induction k with
  | zero => rw [List.replicate_zero, List.nil_append, Nat.mul_zero, Nat.zero_add]
  | succ k ih =>
    have hdots : "..".utf8ByteSize = 2 := rfl
    rw [List.replicate_succ, List.cons_append,
      Path.size_join_cons _ (List.append_ne_nil_of_right_ne_nil _ h), ih, hdots]
    omega

theorem size_roundabout (names : List String) : (roundabout.within names).text.utf8ByteSize =
    4086 + (Text.join "/" ("stage" :: names)).utf8ByteSize := by
  have hparts : (roundabout.within names).parts = List.replicate 1362 ".." ++ "stage" :: names := by
    rw [Path.parts_within, roundabout, List.append_assoc]
    rfl
  have hne := List.append_ne_nil_of_right_ne_nil (List.replicate 1362 "..")
    (List.cons_ne_nil "stage" names)
  rw [Path.size_text_of_ne (.inr (hparts ▸ hne)), hparts, size_join_upward _ (List.cons_ne_nil _ _)]
  exact Nat.zero_add _

set_option maxRecDepth 20000 in
theorem locate_roundabout : branching.locate roundabout = .ok ["stage"] := by
  have hsize := size_roundabout []
  rw [Path.within_nil] at hsize
  rw [locate, if_neg (by rw [hsize]; decide +kernel)]
  decide +kernel

theorem walk_listsOnce_branching :
    (∃ sources, branching.walk ⟨.relative, ["stage"]⟩ = .ok sources ∧ sources.Perm
      ([["a.h"], ["gone"], ["other.h"], ["sub", "b.h"], ["sub", "up"]].map
        (Path.within ⟨.relative, ["stage"]⟩))) ∧
      branching.walk roundabout =
        .error (.refused .nameTooLong (roundabout.within ["empty"]).text) := by
  have hlocate : branching.locate ⟨.relative, ["stage"]⟩ = .ok ["stage"] := by decide +kernel
  have hwalkable : branching.Walkable ⟨.relative, ["stage"]⟩ ["stage"] := by
    intro r hr hdir
    rcases dirs_branching hr hdir with rfl | rfl <;> decide +kernel
  constructor
  · obtain ⟨sources, hwalk, hlists⟩ := (walk_listsOnce hlocate).1 hwalkable
    refine ⟨sources, hwalk, (List.perm_ext_iff_of_nodup hlists.nodup (by decide)).2 fun q => ?_⟩
    rw [hlists.mem_iff, List.mem_map]
    constructor
    · rintro ⟨r, n, hr, rfl, hn, hne⟩
      exact ⟨r, leaves_branching.1 ⟨n, hr, hn, hne⟩, rfl⟩
    · rintro ⟨r, hr, rfl⟩
      obtain ⟨n, hr, hn, hne⟩ := leaves_branching.2 hr
      exact ⟨r, n, hr, rfl, hn, hne⟩
  · -- the path of the one directory has 4097 bytes, that of the other one 4095
    have hlong : ¬ Fits roundabout ["empty"] := by
      rw [Fits, size_roundabout]
      decide +kernel
    have hshort : Fits roundabout ["sub"] := by
      rw [Fits, size_roundabout]
      decide +kernel
    have hno : ¬ branching.Walkable roundabout ["stage"] := fun hall =>
      hlong (hall ["empty"] (List.cons_ne_nil _ _) (by decide +kernel))
    obtain ⟨r, hr, hdir, hnot, hwalk⟩ := (walk_listsOnce locate_roundabout).2 hno
    rcases dirs_branching hr hdir with rfl | rfl
    · exact hwalk
    · exact absurd hshort hnot

end Sysroot.Tree

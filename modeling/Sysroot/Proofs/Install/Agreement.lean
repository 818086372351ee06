import Sysroot.Proofs.Catalog.Order
import Sysroot.Proofs.Install.Contents

/-!
# Installations that agree

What an installation does to the files of a sysroot is decided by those files and by what is below
the directories that the request installs from (`Request.Aimed.filesAgree`).  Neither what else is in
the tree matters, nor the order in which the sources are found.
-/

namespace Sysroot.Install

open Sysroot.Tree Sysroot.Tree.Action

variable {t t₁ t₂ t₁' t₂' : Tree} {root : Path} {R : Location} {k : Nat} {l : Library}
  {r : Request} {source : Path} {names : List String} {files files₁ files₂ : List Path}

/-! ## Sorted sets -/

/-- The text of a set does not depend on the order in which it is given, nor on repetitions. -/
theorem sortedSet_eq {l₁ l₂ : List String} (h : ∀ f, f ∈ l₁ ↔ f ∈ l₂) :
    sortedSet l₁ = sortedSet l₂ := by
  have hsorted : ∀ l : List String, (sortedSet l).Pairwise (· ≤ ·) := fun l =>
    (List.pairwise_mergeSort (by simpa using fun a b c => String.le_trans)
      (by simpa using fun a b => String.le_total a b) _).imp of_decide_eq_true
  have hperm : l₁.eraseDups.Perm l₂.eraseDups :=
    (List.perm_ext_iff_of_nodup (Catalog.nodup_eraseDups l₁) (Catalog.nodup_eraseDups l₂)).2
      fun f => by rw [List.mem_eraseDups, List.mem_eraseDups, h]
  exact List.Perm.eq_of_pairwise (fun _ _ _ _ => String.le_antisymm) (hsorted l₁) (hsorted l₂)
    ((List.mergeSort_perm _ _).trans (hperm.trans (List.mergeSort_perm _ _).symm))

/-! ## The same files -/

/-- Whether two trees have the same files and links below a location. -/
def FilesAgree (R : Location) (t₁ t₂ : Tree) : Prop :=
  ∀ y n, n ≠ .dir → (t₁.get? (R ++ y) = some n ↔ t₂.get? (R ++ y) = some n)

namespace FilesAgree

theorem refl (R : Location) (t : Tree) : FilesAgree R t t := fun _ _ _ => Iff.rfl

theorem symm (h : FilesAgree R t₁ t₂) : FilesAgree R t₂ t₁ := fun y n hn => (h y n hn).symm

theorem trans {t₃ : Tree} (h : FilesAgree R t₁ t₂) (h' : FilesAgree R t₂ t₃) : FilesAgree R t₁ t₃ :=
  fun y n hn => (h y n hn).trans (h' y n hn)

/-- Where there is no directory, there is the same. -/
theorem get?_eq (h : FilesAgree R t₁ t₂) {y : List String} (h₁ : t₁.get? (R ++ y) ≠ some .dir)
    (h₂ : t₂.get? (R ++ y) ≠ some .dir) : t₁.get? (R ++ y) = t₂.get? (R ++ y) := by
  rcases hn : t₁.get? (R ++ y) with _ | n
  · rcases hn' : t₂.get? (R ++ y) with _ | n'
    · rfl
    · have := (h y n' fun heq => h₂ (heq ▸ hn')).2 hn'
      rw [hn] at this
      cases this
  · exact ((h y n fun heq => h₁ (heq ▸ hn)).1 hn).symm

end FilesAgree

/-! ## The same sources -/

/-- Whether two trees have the same files below a directory. -/
def SameUnder (dir : Path) (t₁ t₂ : Tree) : Prop :=
  ∀ source, (source ∈ t₁.filesUnder dir ↔ source ∈ t₂.filesUnder dir) ∧
    (source ∈ t₁.filesUnder dir → t₁.node? source = t₂.node? source)

/-- What is listed below a directory of a seat is what is there. -/
theorem mem_filesUnder_within (hseat : Seat t root R k) (hlinks : NoLinks t R) (hne : names ≠ [])
    (hnames : Descending names) : source ∈ t.filesUnder (root.within names) ↔ Fits root names ∧
      ∃ r n, r ≠ [] ∧ source = root.within (names ++ r) ∧ t.get? (R ++ (names ++ r)) = some n ∧
        n ≠ .dir := by
  constructor
  · intro h
    obtain ⟨D, r, n, hlocate, hr, rfl, hn, hdir⟩ := exists_of_mem_filesUnder h
    obtain rfl := hseat.locate_ok hlinks hne hnames hlocate
    refine ⟨?_, r, n, hr, Path.within_within, ?_, hdir⟩
    · by_contra hno
      rw [locate_of_not_fits hno] at hlocate
      cases hlocate
    · rw [← List.append_assoc, hn]
  · rintro ⟨hfits, r, n, hr, rfl, hn, hdir⟩
    rw [← List.append_assoc] at hn
    refine (mem_filesUnder (hseat.locate_of_get? hlinks hne hfits (get?_of_append hn hr))).2
      ⟨r, n, hr, Path.within_within.symm, hn, hdir⟩

/-- Trees with the same files and links in a directory of a seat have the same files below it. -/
theorem sameUnder_within (hseat₁ : Seat t₁ root R k) (hlinks₁ : NoLinks t₁ R)
    (hseat₂ : Seat t₂ root R k) (hlinks₂ : NoLinks t₂ R) (hne : names ≠ []) (hnames : Descending names)
    (h : FilesAgree (R ++ names) t₁ t₂) : SameUnder (root.within names) t₁ t₂ := by
  have hsame : ∀ r n, n ≠ .dir →
      (t₁.get? (R ++ (names ++ r)) = some n ↔ t₂.get? (R ++ (names ++ r)) = some n) := fun r n hn => by
    rw [← List.append_assoc, h r n hn]
  refine fun source => ⟨?_, fun hsource => ?_⟩
  · rw [mem_filesUnder_within hseat₁ hlinks₁ hne hnames,
      mem_filesUnder_within hseat₂ hlinks₂ hne hnames]
    refine and_congr_right fun _ => exists₂_congr fun r n => and_congr_right fun _ =>
      and_congr_right fun _ => ⟨fun ⟨hn, hdir⟩ => ⟨(hsame r n hdir).1 hn, hdir⟩,
        fun ⟨hn, hdir⟩ => ⟨(hsame r n hdir).2 hn, hdir⟩⟩
  · obtain ⟨hfits, r, n, -, rfl, hn, hdir⟩ := (mem_filesUnder_within hseat₁ hlinks₁ hne hnames).1 hsource
    have hdown : Descending (names ++ r) := Plain.descending fun name hname =>
      isName_of_get? hn name (List.mem_append_right R hname)
    have hne' : names ++ r ≠ [] := List.append_ne_nil_of_left_ne_nil hne r
    refine Option.ext fun n' => ?_
    rw [hseat₁.node?_eq_some hlinks₁ hne' hdown, hseat₂.node?_eq_some hlinks₂ hne' hdown, hn,
      (hsame r n hdir).1 hn]

theorem heads_iff {dir : Path} {place : String} {x : List String} (h : SameUnder dir t₁ t₂) :
    Heads t₁ dir place x source ↔ Heads t₂ dir place x source := by
  simp only [Heads, (h source).1]

theorem stages_iff {stage : Path} {x : List String}
    (h : ∀ name ∈ standardSections, SameUnder (stage / name) t₁ t₂) :
    Stages t₁ stage x source ↔ Stages t₂ stage x source := by
  constructor
  · rintro ⟨name, hname, r, hx, hr, hsource⟩
    exact ⟨name, hname, r, hx, hr, ((h name hname source).1).1 hsource⟩
  · rintro ⟨name, hname, r, hx, hr, hsource⟩
    exact ⟨name, hname, r, hx, hr, ((h name hname source).1).2 hsource⟩

/-- A request gives what is listed below one of its directories. -/
theorem Request.Gives.mem_dirs {x : List String} (h : r.Gives t x source) (hstandard : r.Standard) :
    ∃ dir ∈ r.dirs, source ∈ t.filesUnder dir := by
  cases r with
  | stage s =>
    rcases h with ⟨name, hname, -, -, -, hsource⟩ | ⟨-, dir, place, hheaders, -, -, -, hsource⟩
    · rw [← show s.sections = standardSections from hstandard] at hname
      exact ⟨s.stage / name, List.mem_append_right _ (List.mem_map.2 ⟨name, hname, rfl⟩), hsource⟩
    · exact ⟨dir, List.mem_append_left _ (by simp [hheaders]), hsource⟩
  | headers dir place =>
    obtain ⟨-, -, -, hsource⟩ := h
    exact ⟨dir, List.mem_singleton_self dir, hsource⟩

/-- Trees with the same files below the directories of a request give the same to the same
places. -/
theorem Request.gives_iff {x : List String} (hstandard : r.Standard)
    (h : ∀ dir ∈ r.dirs, SameUnder dir t₁ t₂) : r.Gives t₁ x source ↔ r.Gives t₂ x source := by
  cases r with
  | stage s =>
    have hstages : ∀ source, Stages t₁ s.stage x source ↔ Stages t₂ s.stage x source := fun _ =>
      stages_iff fun name hname => h _ (List.mem_append_right _ (List.mem_map.2
        ⟨name, (show s.sections = standardSections from hstandard) ▸ hname, rfl⟩))
    have hheads : ∀ dir place, s.headers = some (dir, place) →
        (Heads t₁ dir place x source ↔ Heads t₂ dir place x source) := fun dir place hheaders =>
      heads_iff (h dir (List.mem_append_left _ (by simp [hheaders])))
    simp only [Gives, hstages]
    refine or_congr_right (and_congr_right fun _ => exists₂_congr fun dir place =>
      and_congr_right (hheads dir place))
  | headers dir place => exact heads_iff (h dir (List.mem_singleton_self dir))

/-! ## Installations -/

/-- A request that is carried out on the same files, with the same below the directories that it
installs from, leads to the same files. -/
theorem Request.Aimed.filesAgree (hr₁ : r.Aimed t₁ R) (hr₂ : r.Aimed t₂ R) (hstandard : r.Standard)
    (hseat₁ : Seat t₁ root R k) (hseat₂ : Seat t₂ root R k) (hlinks₁ : NoLinks t₁ R)
    (hlinks₂ : NoLinks t₂ R) (hok₁ : r.run root l t₁ = (.ok files₁, t₁'))
    (hok₂ : r.run root l t₂ = (.ok files₂, t₂')) (h : FilesAgree R t₁ t₂)
    (hdirs : ∀ dir ∈ r.dirs, SameUnder dir t₁ t₂) : FilesAgree R t₁' t₂' := by
  have hgives : ∀ x source, r.Gives t₁ x source ↔ r.Gives t₂ x source := fun _ _ =>
    Request.gives_iff hstandard hdirs
  obtain ⟨m₁, hm₁, -, hinst₁, -, -, hitems₁, -, before₁, hbefore₁, hmanifest₁⟩ :=
    hr₁.filled (sited_of_seat hseat₁) hseat₁.null hlinks₁ hok₁
  obtain ⟨m₂, hm₂, -, hinst₂, -, -, hitems₂, -, before₂, hbefore₂, hmanifest₂⟩ :=
    hr₂.filled (sited_of_seat hseat₂) hseat₂.null hlinks₂ hok₂
  have hpairs : ∀ item, item ∈ m₁.pairs ↔ item ∈ m₂.pairs := fun item => by
    rw [Request.mem_mapping hr₁.inward hstandard hm₁, Request.mem_mapping hr₂.inward hstandard hm₂]
    simp only [hgives]
  have hkeys : ∀ key, key ∈ m₁.keys ↔ key ∈ m₂.keys := fun key => by
    rw [OrderedMap.keys, OrderedMap.keys, List.mem_map, List.mem_map]
    simp only [hpairs]
  have hplaces : ∀ item ∈ m₁.pairs,
      t₁'.get? (R ++ namesOf item.1) = t₂'.get? (R ++ namesOf item.1) := by
    intro item hitem
    obtain ⟨-, -, content₁, executable₁, hsource₁, hn₁⟩ := hitems₁ item hitem
    obtain ⟨-, -, content₂, executable₂, hsource₂, hn₂⟩ := hitems₂ item ((hpairs item).1 hitem)
    obtain ⟨x, -, hx⟩ := (Request.mem_mapping hr₁.inward hstandard hm₁).1 hitem
    obtain ⟨dir, hdir, hlisted⟩ := hx.mem_dirs hstandard
    rw [hn₁, hn₂, ← hsource₁, ← hsource₂, (hdirs dir hdir item.2).2 hlisted]
  have hsame := h.get?_eq (ne_dir_of_manifestAt hbefore₁) (ne_dir_of_manifestAt hbefore₂)
  have hmanifests : t₁'.get? (R ++ manifestNames l) = t₂'.get? (R ++ manifestNames l) := by
    rw [hsame] at hbefore₁ hmanifest₁
    obtain rfl := Except.ok.inj (hbefore₁.symm.trans hbefore₂)
    have hset : sortedSet (before₁ ++ m₁.keys) = sortedSet (before₁ ++ m₂.keys) :=
      sortedSet_eq fun f => by rw [List.mem_append, List.mem_append, hkeys]
    rw [hmanifest₁, hmanifest₂, manifestBytes, manifestJson, hset]
    rfl
  intro y n hn
  by_cases hy : y = manifestNames l
  · rw [hy, hmanifests]
  by_cases habove : ∃ item ∈ m₁.pairs, namesOf item.1 <+: y
  · obtain ⟨item, hitem, more, rfl⟩ := habove
    cases more with
    | nil => rw [List.append_nil, hplaces item hitem]
    | cons first rest =>
      -- there is nothing below a file
      obtain ⟨-, -, content, executable, -, hfile⟩ := hitems₁ item hitem
      have hbelow : ∀ {t : Tree}, t.get? (R ++ namesOf item.1) = some (.file content executable) →
          t.get? (R ++ (namesOf item.1 ++ first :: rest)) = none := fun hf => by
        rw [← List.append_assoc]
        exact get?_append_eq_none (by simp [hf]) (List.cons_ne_nil _ _)
      rw [hbelow hfile, hbelow (hplaces item hitem ▸ hfile)]
  · push Not at habove
    have hothers : ∀ {t t' : Tree} {m : OrderedMap String Path}, Installed t t' root R k l m →
        (∀ item, item ∈ m₁.pairs ↔ item ∈ m.pairs) →
        (t'.get? (R ++ y) = some n ↔ t.get? (R ++ y) = some n) := by
      intro t t' m hinst hsame
      rcases hinst.others y (fun key hkey => by
        obtain ⟨item, hitem, rfl⟩ := List.mem_map.1 hkey
        exact habove item ((hsame item).2 hitem)) hy with heq | ⟨hnone, hdir, -⟩
      · rw [heq]
      · simp [hnone, hdir, hn.symm]
    rw [hothers hinst₁ (fun _ => Iff.rfl), hothers hinst₂ hpairs]
    exact h y n hn

end Sysroot.Install

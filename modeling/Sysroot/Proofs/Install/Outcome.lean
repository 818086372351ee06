import Sysroot.Proofs.Install.Contents
import Sysroot.Proofs.Install.Owners

/-!
# The outcome of an installation

What a request sends to a sysroot is told by the tree alone (`Request.Sends`): a file below a
section of the stage goes to the same place below that section, one below the directory of headers
to the same place below its prefix, and the stage has precedence.  When the request is carried out
and no place of it is a directory, these places hold what was sent to them, the manifest lists them
besides what it listed before, and nothing else is different but for new directories
(`Request.Aimed.run_outcome`).
-/

namespace Sysroot.Install

open Sysroot.Tree Sysroot.Tree.Action

variable {t t' : Tree} {root dir stage source : Path} {R : Location} {k : Nat} {l : Library}
  {r : Request} {files : List Path} {place : String} {x p : List String} {n : Node}

/-! ## What is sent -/

/-- Whether a directory has a file or link below it, at the place of some names. -/
def Beneath (t : Tree) (dir : Path) (p : List String) (n : Node) : Prop :=
  ∃ D, t.locate dir = .ok D ∧ p ≠ [] ∧ t.get? (D ++ p) = some n ∧ n ≠ .dir

/-- Whether a stage sends a file or link to a place. -/
def StageSends (t : Tree) (stage : Path) (x : List String) (n : Node) : Prop :=
  ∃ name ∈ standardSections, ∃ p, x = name :: p ∧ Beneath t (stage / name) p n

/-- Whether a directory of headers sends a file or link to a place. -/
def HeadersSend (t : Tree) (dir : Path) (place : String) (x : List String) (n : Node) : Prop :=
  ∃ p, x = "include" :: (Path.ofText place).parts ++ p ∧ Beneath t dir p n

/-- Whether a request sends a file or link to a place.  What is staged has precedence over
headers. -/
def Request.Sends (t : Tree) (x : List String) (n : Node) : Request → Prop
  | .stage s => StageSends t s.stage x n ∨ (¬ ∃ n', StageSends t s.stage x n') ∧
      ∃ dir place, s.headers = some (dir, place) ∧ HeadersSend t dir place x n
  | .headers dir place => HeadersSend t dir place x n

theorem exists_beneath_iff : (∃ n, Beneath t dir p n) ↔ dir.within p ∈ t.filesUnder dir := by
  constructor
  · rintro ⟨n, D, hlocate, hp, hn, hne⟩
    exact (mem_filesUnder hlocate).2 ⟨p, n, hp, rfl, hn, hne⟩
  · intro h
    obtain ⟨D, p', n, hlocate, hp, heq, hn, hne⟩ := exists_of_mem_filesUnder h
    obtain rfl := within_injective heq
    exact ⟨n, D, hlocate, hp, hn, hne⟩

theorem exists_stageSends_iff : (∃ n, StageSends t stage x n) ↔ ∃ source, Stages t stage x source := by
  constructor
  · rintro ⟨n, name, hname, p, rfl, hp⟩
    exact ⟨_, name, hname, p, rfl, rfl, exists_beneath_iff.1 ⟨n, hp⟩⟩
  · rintro ⟨source, name, hname, p, rfl, rfl, hp⟩
    obtain ⟨n, hn⟩ := exists_beneath_iff.2 hp
    exact ⟨n, name, hname, p, rfl, hn⟩

/-- What a request gives to a place it sends there, from below one of its directories. -/
theorem Request.Gives.sends (h : r.Gives t x source) (hstandard : r.Standard) :
    ∃ dir ∈ r.dirs, ∃ p n, source = dir.within p ∧ Beneath t dir p n ∧ r.Sends t x n := by
  cases r with
  | stage s =>
    rcases h with ⟨name, hname, p, rfl, rfl, hp⟩ | ⟨hno, dir, place, hheaders, p, rfl, rfl, hp⟩
    · obtain ⟨n, hn⟩ := exists_beneath_iff.2 hp
      rw [← show s.sections = standardSections from hstandard] at hname
      refine ⟨s.stage / name, List.mem_append_right _ (List.mem_map.2 ⟨name, hname, rfl⟩), p, n, rfl,
        hn, .inl ⟨name, ?_, p, rfl, hn⟩⟩
      rwa [← show s.sections = standardSections from hstandard]
    · obtain ⟨n, hn⟩ := exists_beneath_iff.2 hp
      exact ⟨dir, List.mem_append_left _ (by simp [hheaders]), p, n, rfl, hn,
        .inr ⟨fun hs => hno (exists_stageSends_iff.1 hs), dir, place, hheaders, p, rfl, hn⟩⟩
  | headers dir place =>
    obtain ⟨p, rfl, rfl, hp⟩ := h
    obtain ⟨n, hn⟩ := exists_beneath_iff.2 hp
    exact ⟨dir, List.mem_singleton_self dir, p, n, rfl, hn, p, rfl, hn⟩

/-- What a request sends to a place it gives from there. -/
theorem Request.Sends.gives (h : r.Sends t x n) (hstandard : r.Standard) :
    ∃ dir ∈ r.dirs, ∃ p, Beneath t dir p n ∧ r.Gives t x (dir.within p) := by
  cases r with
  | stage s =>
    rcases h with ⟨name, hname, p, rfl, hp⟩ | ⟨hno, dir, place, hheaders, p, rfl, hp⟩
    · refine ⟨s.stage / name, List.mem_append_right _ (List.mem_map.2 ⟨name, ?_, rfl⟩), p, hp,
        .inl ⟨name, hname, p, rfl, rfl, exists_beneath_iff.1 ⟨n, hp⟩⟩⟩
      rwa [show s.sections = standardSections from hstandard]
    · exact ⟨dir, List.mem_append_left _ (by simp [hheaders]), p, hp,
        .inr ⟨fun hs => hno (exists_stageSends_iff.2 hs), dir, place, hheaders, p, rfl, rfl,
          exists_beneath_iff.1 ⟨n, hp⟩⟩⟩
  | headers dir place =>
    obtain ⟨p, rfl, hp⟩ := h
    exact ⟨dir, List.mem_singleton_self dir, p, hp, p, rfl, rfl, exists_beneath_iff.1 ⟨n, hp⟩⟩

theorem Request.exists_sends_iff (hstandard : r.Standard) :
    (∃ n, r.Sends t x n) ↔ ∃ source, r.Gives t x source :=
  ⟨fun ⟨_, h⟩ => have ⟨_, _, _, _, hgives⟩ := h.gives hstandard
    ⟨_, hgives⟩, fun ⟨_, h⟩ => have ⟨_, _, _, n, _, _, hsends⟩ := h.sends hstandard
    ⟨n, hsends⟩⟩

/-- The items of what a request asks for are what it gives to the places that their keys spell. -/
theorem Request.mem_mapping_namesOf {m : OrderedMap String Path} {item : String × Path}
    (hin : r.Inward) (hstandard : r.Standard) (hm : r.mapping l t = (.ok m, t')) :
    item ∈ m.pairs ↔
      item.1 = (Path.ofNames (namesOf item.1)).text ∧ r.Gives t (namesOf item.1) item.2 := by
  rw [Request.mem_mapping hin hstandard hm]
  refine ⟨fun ⟨x, hkey, hgives⟩ => ?_, fun h => ⟨_, h⟩⟩
  have hx : namesOf item.1 = x := by
    rw [namesOf, hkey, hgives.spelled.ofText_text]
    rfl
  rw [hx]
  exact ⟨hkey, hgives⟩

/-- The places of what a request asks for are those that it sends something to. -/
theorem Request.exists_item_iff {m : OrderedMap String Path} (hin : r.Inward) (hstandard : r.Standard)
    (hm : r.mapping l t = (.ok m, t')) :
    (∃ item ∈ m.pairs, namesOf item.1 = x) ↔ ∃ n, r.Sends t x n := by
  rw [Request.exists_sends_iff hstandard]
  constructor
  · rintro ⟨item, hitem, rfl⟩
    exact ⟨_, ((Request.mem_mapping_namesOf hin hstandard hm).1 hitem).2⟩
  · rintro ⟨source, hgives⟩
    have hx : namesOf (Path.ofNames x).text = x := by
      rw [namesOf, hgives.spelled.ofText_text]
      rfl
    exact ⟨((Path.ofNames x).text, source),
      (Request.mem_mapping hin hstandard hm).2 ⟨x, rfl, hgives⟩, hx⟩

/-- Whether a list holds the paths of what a request sends. -/
def Request.Keys (r : Request) (t : Tree) (keys : List String) : Prop :=
  ∀ f, f ∈ keys ↔ ∃ x n, r.Sends t x n ∧ f = (Path.ofNames x).text

/-- What a request asks for has the paths of what it sends. -/
theorem Request.keys_mapping (hin : r.Inward) (hstandard : r.Standard)
    (hm : r.mapping l t = (.ok m, t')) : r.Keys t m.keys := fun f => by
  constructor
  · intro hf
    obtain ⟨item, hitem, rfl⟩ := List.mem_map.1 hf
    obtain ⟨n, hsends⟩ := (Request.exists_item_iff hin hstandard hm).1 ⟨item, hitem, rfl⟩
    exact ⟨_, n, hsends, ((Request.mem_mapping_namesOf hin hstandard hm).1 hitem).1⟩
  · rintro ⟨x, n, hsends, rfl⟩
    obtain ⟨item, hitem, rfl⟩ := (Request.exists_item_iff hin hstandard hm).2 ⟨n, hsends⟩
    rw [← ((Request.mem_mapping_namesOf hin hstandard hm).1 hitem).1]
    exact List.mem_map.2 ⟨item, hitem, rfl⟩

theorem Request.Sends.spelled (h : r.Sends t x n) (hstandard : r.Standard) : Path.Spelled x :=
  have ⟨_, _, _, _, hgives⟩ := h.gives hstandard
  hgives.spelled

/-- What is sent goes to a place below a section. -/
theorem Request.Sends.two_le_length (h : r.Sends t x n) : 2 ≤ x.length := by
  have hbelow : ∀ {dir p n}, Beneath t dir p n → 1 ≤ p.length := fun ⟨_, _, hp, _⟩ =>
    List.length_pos_iff.2 hp
  cases r with
  | stage s =>
    rcases h with ⟨name, -, p, rfl, hp⟩ | ⟨-, dir, place, -, p, rfl, hp⟩
    · exact Nat.succ_le_succ (hbelow hp)
    · have := hbelow hp
      simp
      omega
  | headers dir place =>
    obtain ⟨p, rfl, hp⟩ := h
    have := hbelow hp
    simp
    omega

/-- What a path leads to in a directory outside of a sysroot is what is at the place of its names. -/
theorem Outside.eq_of_node? (h : Outside t R dir) (hp : Beneath t dir p n) {n' : Node}
    (hn' : t.node? (dir.within p) = some n') : n' = n := by
  obtain ⟨D, hlocate, hne, hn, -⟩ := hp
  obtain ⟨-, hthere⟩ := h.locate_within hlocate hne hn (.of_grown (.refl t) (.refl R t)) .target
  have hfits : Fits dir p := by
    by_contra hno
    rw [node?, locate_of_not_fits hno] at hn'
    cases hn'
  rw [node?, hthere hfits] at hn'
  exact Option.some.inj (hn'.symm.trans hn)

/-! ## What success tells -/

/-- The root of a sysroot into which something was installed has no NUL in its path. -/
theorem Request.hasNull_of_run (hok : r.run root l t = (.ok files, t')) :
    hasNull root.text = false := by
  rcases Request.run_cases root l r t with ⟨fault, hfail⟩ | ⟨m, owned, -, -, -, hrun⟩
  · rw [hfail] at hok
    cases hok
  rw [hrun] at hok
  by_contra hnull
  have hsection : hasNull (includeDir root).text = true := by
    rw [includeDir_eq, Path.hasNull_within (plain_cons.2 ⟨by decide, plain_nil⟩)]
    simpa using hnull
  rcases hopen : openAside root l t with ⟨fault | aside, t₁⟩
  · obtain ⟨fault', hfail⟩ :
        ∃ fault', transact root l m t = (.error fault', t₁) := transact_of_error hopen
    rw [hok] at hfail
    cases hfail
  · obtain ⟨⟨⟩, t₂, hcreate, -⟩ := Effect.bind_ok hopen
    obtain ⟨ta, -, ha, -⟩ := create_ok hcreate
    have herror := ensureDirs_of_null (t := t) hsection
    rw [ha] at herror
    cases herror

/-- The key of an entry is the text of one place only. -/
theorem IsEntry.namesOf_eq {item : String × Path} (h : IsEntry item (namesOf item.1))
    (hx : Path.Spelled x) (hkey : item.1 = (Path.ofNames x).text) : namesOf item.1 = x :=
  Path.Spelled.eq_of_text (Path.Spelled.of_plain h.place.plain) hx (h.key.symm.trans hkey)

/-! ## The outcome -/

/-- What a request from outside of a sysroot without links leads to when it is carried out, no place
that it sends something to being a directory.  Each of these places holds what was sent to it; what
is elsewhere but among the manifests is as it was or is a new directory; the manifest of the library
lists these places besides what it listed before; nothing else among the manifests is different; and
the paths of these places are told in order. -/
theorem Request.Aimed.run_outcome (hr : r.Aimed t R) (hstandard : r.Standard)
    (hsite : Sited t root R k) (hlinks : NoLinks t R)
    (hdirs : ∀ x n, r.Sends t x n → t.get? (R ++ x) ≠ some .dir)
    (hok : r.run root l t = (.ok files, t')) :
    (∀ x n, r.Sends t x n → t'.get? (R ++ x) = some n) ∧
    (∀ y, y.head? ≠ some ".manifests" → (∀ n, ¬ r.Sends t y n) →
      t'.get? (R ++ y) = t.get? (R ++ y) ∨
        t.get? (R ++ y) = none ∧ t'.get? (R ++ y) = some .dir) ∧
    (∃ before after, readManifest root l t = (.ok before, t) ∧
      readManifest root l t' = (.ok after, t') ∧
      ∀ f, f ∈ after ↔ f ∈ before ∨ ∃ x n, r.Sends t x n ∧ f = (Path.ofNames x).text) ∧
    (∀ y, y ≠ [] → ".manifests" :: y ≠ manifestNames l →
      t'.get? (R ++ ".manifests" :: y) = t.get? (R ++ ".manifests" :: y)) ∧
    ∃ places : List (List String), (places.map fun x => (Path.ofNames x).text).Pairwise (· < ·) ∧
      (∀ x, x ∈ places ↔ ∃ n, r.Sends t x n) ∧ files = places.map root.within := by
  have hnull := Request.hasNull_of_run hok
  obtain ⟨m, hm, rfl, hinst, hlinks', -, hitems, hfits, -⟩ :=
    hr.filled hsite hnull hlinks hok
  have hentries : ∀ item ∈ m.pairs, IsEntry item (namesOf item.1) := fun item hitem =>
    (hitems item hitem).1
  have hplaces : ∀ x, (∃ item ∈ m.pairs, namesOf item.1 = x) ↔ ∃ n, r.Sends t x n := fun x =>
    Request.exists_item_iff hr.inward hstandard hm
  have hsent : ∀ x n, r.Sends t x n → t'.get? (R ++ x) = some n := by
    intro x n hsends
    obtain ⟨dir, hdir, p, hbeneath, hgives⟩ := hsends.gives hstandard
    have hitem : ((Path.ofNames x).text, dir.within p) ∈ m.pairs :=
      (Request.mem_mapping hr.inward hstandard hm).2 ⟨x, rfl, hgives⟩
    obtain ⟨hentry, -, content, executable, hsource, hn⟩ := hitems _ hitem
    rw [hentry.namesOf_eq hgives.spelled rfl] at hn
    rw [hn, (hr.outside dir hdir).eq_of_node? hbeneath hsource]
  have hkeys : r.Keys t m.keys := Request.keys_mapping hr.inward hstandard hm
  refine ⟨hsent, fun y hhead hno => ?_, ?_, fun y hy hother => ?_, ?_⟩
  · by_cases habove : ∃ key ∈ m.keys, namesOf key <+: y
    · -- below a place there is nothing, before and after
      obtain ⟨key, hkey, hpre⟩ := habove
      obtain ⟨item, hitem, rfl⟩ := List.mem_map.1 hkey
      obtain ⟨rest, rfl⟩ := hpre
      obtain ⟨n, hsends⟩ := (hplaces _).1 ⟨item, hitem, rfl⟩
      have hrest : rest ≠ [] := by
        rintro rfl
        rw [List.append_nil] at hno
        exact hno n hsends
      obtain ⟨-, -, content, executable, -, hfile⟩ := hitems item hitem
      have hfree := get?_append_eq_none (hdirs _ n hsends) hrest
      have hfree' := get?_append_eq_none (t := t') (by rw [hfile]; exact nofun) hrest
      rw [← List.append_assoc, hfree, hfree']
      exact .inl rfl
    · push Not at habove
      rcases hinst.others y habove (fun heq => hhead (by rw [heq]; rfl)) with heq | ⟨hnone, hdir, -⟩
      · exact .inl heq
      · exact .inr ⟨hnone, hdir⟩
  · obtain ⟨before, after, hbefore, hafter, hmem⟩ :=
      hinst.readManifest_self hsite hlinks hlinks' hnull hfits
    exact ⟨before, after, hbefore, hafter, fun f => by rw [hmem, hkeys f]⟩
  · refine hinst.get?_manifests (fun key hkey => ?_) hy hother
    obtain ⟨item, hitem, rfl⟩ := List.mem_map.1 hkey
    exact (hentries item hitem).place
  · refine ⟨(inOrder m).map fun item => namesOf item.1, ?_, fun x => ?_, ?_⟩
    · rw [List.map_map]
      have hsame : (inOrder m).map ((fun x => (Path.ofNames x).text) ∘ fun item => namesOf item.1) =
          (inOrder m).map Prod.fst :=
        List.map_congr_left fun item hitem => ((hentries item (mem_inOrder.1 hitem)).key).symm
      rw [hsame]
      exact m.sorted_keys
    · rw [← hplaces x, List.mem_map]
      simp only [mem_inOrder]
    · rw [List.map_map]
      exact List.map_congr_left fun item hitem => (hentries item (mem_inOrder.1 hitem)).div_eq root

/-- A header in a sysroot, one in a stage and one among the headers to install besides, all of the
same name. -/
def commonHeader : Tree where
  entries := [(["h"], .dir), (["h", "a"], .file [1] false),
    (["st"], .dir), (["st", "include"], .dir), (["st", "include", "a"], .file [2] true),
    (["st", "lib"], .dir), (["s"], .dir), (["s", "include"], .dir), (["s", "include", "a"], .file [3] false)]
  nodup := by decide
  root_free := by decide
  housed := by decide
  named := by decide +kernel
  home := []

/-- The request to install the stage and the headers. -/
def commonRequest : Request :=
  .stage { stage := ⟨.root, ["st"]⟩, headers := some (⟨.root, ["h"]⟩, "") }

theorem aimed_commonRequest : commonRequest.Aimed commonHeader ["s"] := by
  have hlinks : NoLinks commonHeader [] := noLinks_of_entries (by decide)
  have houtside : ∀ D ∈ [["h"], ["st", "include"], ["st", "lib"]],
      Outside commonHeader ["s"] ⟨.root, D⟩ := by
    intro D hD
    have hdir : commonHeader.get? D = some .dir ∧ ¬ ["s"] <+: D ∧ ¬ D <+: ["s"] ∧
        Fits ⟨.root, []⟩ D := by
      fin_cases hD <;> decide +kernel
    exact outside_of_dir hdir.1 hdir.2.1 hdir.2.2.1 (hlinks.within D) hdir.2.2.2
  refine ⟨⟨fun dir place hin => ?_, fun stage name hin => ?_⟩, fun dir hdir => ?_⟩
  · obtain ⟨rfl, rfl⟩ : dir = ⟨.root, ["h"]⟩ ∧ place = "" := by
      simpa [Request.headed, commonRequest, eq_comm] using hin
    decide +kernel
  · obtain ⟨name', hname, heq⟩ := List.mem_map.1 hin
    cases heq
    exact (section_of_standard hname).1
  · have hparts : dir ∈ [["h"], ["st", "include"], ["st", "lib"]].map (Path.mk .root) := by
      have hdirs : commonRequest.dirs = [["h"], ["st", "include"], ["st", "lib"]].map (Path.mk .root) := by
        decide +kernel
      exact hdirs ▸ hdir
    obtain ⟨D, hD, rfl⟩ := List.mem_map.1 hparts
    exact houtside D hD

theorem run_outcome_commonHeader : ∃ files t',
    commonRequest.run ⟨.root, ["s"]⟩ .libc commonHeader = (.ok files, t') ∧
      t'.get? ["s", "include", "a"] = some (.file [2] true) := by
  have hok : (commonRequest.run ⟨.root, ["s"]⟩ .libc commonHeader).1.toOption.isSome = true := by
    decide +kernel
  rcases hrun : commonRequest.run ⟨.root, ["s"]⟩ .libc commonHeader with ⟨fault | files, t'⟩
  · rw [hrun] at hok
    cases hok
  have hseat : Seat commonHeader ⟨.root, ["s"]⟩ ["s"] linkBudget :=
    (seat_root commonHeader).within (plain_cons.2 ⟨by decide, plain_nil⟩) (by decide)
  have hdirs : ∀ x n, commonRequest.Sends commonHeader x n →
      commonHeader.get? (["s"] ++ x) ≠ some .dir := by
    intro x n hsends hdir
    have hmem := (get?_eq_some_iff (List.cons_ne_nil _ _)).1 hdir
    simp only [commonHeader, List.mem_cons, Prod.mk.injEq, List.cons.injEq,
      List.not_mem_nil, or_false, reduceCtorEq, and_false, false_and, false_or, and_true,
      String.reduceEq, true_and] at hmem
    have hlength := hsends.two_le_length
    rcases hmem with rfl | rfl <;> simp at hlength
  obtain ⟨hsent, -⟩ := aimed_commonRequest.run_outcome rfl (sited_of_seat hseat)
    (noLinks_of_entries (by decide)) hdirs hrun
  refine ⟨files, t', rfl, hsent ["include", "a"] _ (.inl ?_)⟩
  exact ⟨"include", by decide, ["a"], rfl, ["st", "include"], by decide +kernel, by decide,
    by decide, by decide⟩

end Sysroot.Install

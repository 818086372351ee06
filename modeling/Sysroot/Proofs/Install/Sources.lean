import Sysroot.Proofs.Install.Listing
import Sysroot.Proofs.Install.Transacting

/-!
# What an installation is made from

A request reads the tree for a mapping and installs it (`Request.run_eq`).  It looks below the
directories that it is given, as far as they are there and can be walked (`Tree.surveyed`), and
takes what is listed there (`Tree.mem_walked`).  When its sections and the place of its headers are
normal, each entry of the mapping gives a file or link below one of its directories to a place of
its own (`Request.mapping_ok`).  The request fails before it touches anything, or is carried out as
one transaction (`Request.run_cases`).
-/

namespace Sysroot.Tree

open Effect

variable {t t' : Tree} {dir source : Path} {sources : List Path}

/-! ## Directories to install from -/

/-- Whether the files below a path can be installed: whether it leads to a directory, if this is one
that can be walked. -/
def surveyed (t : Tree) (dir : Path) : Except SystemError Bool := do
  if ← t.query dir isDir then
    let _ ← t.walk dir
    return true
  else return false

theorem query_of_surveyed {there : Bool} (h : t.surveyed dir = .ok there) :
    t.query dir isDir = .ok there := by
  obtain ⟨found, hquery, h⟩ := except_bind_ok h
  cases found with
  | false => exact Except.ok.inj h ▸ hquery
  | true =>
    obtain ⟨sources, -, h⟩ := except_bind_ok h
    exact Except.ok.inj h ▸ hquery

theorem surveyed_eq_false_iff : t.surveyed dir = .ok false ↔ t.query dir isDir = .ok false :=
  ⟨query_of_surveyed, fun h => by rw [surveyed, h]; rfl⟩

/-- The files and links that a walk gives. -/
def walked (t : Tree) (dir : Path) : List Path := (t.walk dir).toOption.getD []

theorem walk_of_surveyed (h : t.surveyed dir = .ok true) : t.walk dir = .ok (t.walked dir) := by
  obtain ⟨found, hquery, h⟩ := except_bind_ok h
  cases found with
  | false => cases h
  | true =>
    obtain ⟨sources, hwalk, -⟩ := except_bind_ok h
    rw [walked, hwalk]
    rfl

theorem mem_walked (h : t.surveyed dir = .ok true) :
    source ∈ t.walked dir ↔ source ∈ t.filesUnder dir := mem_walk (walk_of_surveyed h)

theorem mem_filesUnder_of_walked (h : source ∈ t.walked dir) : source ∈ t.filesUnder dir := by
  rcases hwalk : t.walk dir with e | sources
  · rw [walked, hwalk] at h
    cases h
  · rw [walked, hwalk] at h
    exact (mem_walk hwalk).1 h

/-- What can be installed from is a directory all of whose directories can be asked about. -/
theorem surveyed_eq_true_iff : t.surveyed dir = .ok true ↔
    ∃ D, t.locate dir = .ok D ∧ t.get? D = some .dir ∧ t.Walkable dir D := by
  constructor
  · intro h
    obtain ⟨D, hlocate, hdir⟩ := isDir_iff.1 ((query_ok (query_of_surveyed h)).resolve_right nofun)
    have hwalk := walk_of_surveyed h
    rw [walk_of_locate hlocate] at hwalk
    exact ⟨D, hlocate, hdir, walkable_of_walkFrom hlocate hwalk⟩
  · rintro ⟨D, hlocate, hdir, hwalkable⟩
    have hquery : t.query dir isDir = .ok true := by
      rw [query_eq_ok (by rw [hlocate]; exact nofun), isDir_iff.2 ⟨D, hlocate, hdir⟩]
    obtain ⟨sources, hwalk⟩ := (walkFrom_iff hlocate).2 hwalkable
    rw [surveyed, hquery, except_ok_bind, if_pos rfl, walk_of_locate hlocate, hwalk]
    rfl

/-- What is the same below a directory can be installed from alike. -/
theorem surveyed_of_same {there : Bool} (hlocate : t'.locate dir = t.locate dir)
    (hsame : ∀ D y, t.locate dir = .ok D → t'.get? (D ++ y) = t.get? (D ++ y))
    (h : t.surveyed dir = .ok there) : t'.surveyed dir = .ok there := by
  cases there with
  | true =>
    obtain ⟨D, hD, hdir, hwalkable⟩ := surveyed_eq_true_iff.1 h
    have hdir' : t'.get? D = some .dir := by
      have hseat := hsame D [] hD
      rwa [List.append_nil, hdir] at hseat
    refine surveyed_eq_true_iff.2 ⟨D, hlocate.trans hD, hdir', fun r hr hr' => ?_⟩
    exact hwalkable r hr ((hsame D r hD).symm.trans hr')
  | false =>
    have hisDir : t'.isDir dir = t.isDir dir := by
      rw [isDir, isDir, node?, node?, hlocate]
      rcases hD : t.locate dir with e | D
      · rfl
      · have hseat := hsame D [] hD
        rw [List.append_nil] at hseat
        simp only [hseat]
    rw [surveyed_eq_false_iff] at h ⊢
    rwa [query, hlocate, hisDir]

end Sysroot.Tree

namespace Sysroot.Install

open Sysroot.Tree Sysroot.Tree.Action

variable {t t' : Tree} {root dir : Path} {l : Library} {place : String} {names : List String}
  {item : String × Path}

/-! ## Entries of a mapping -/

/-- Whether a text is the place of headers below the directory for them. -/
def IsPrefix (place : String) : Prop :=
  ∃ names, Path.ofText place = Path.ofNames names ∧ Plain names

/-- Whether a text is a section within the directories of a sysroot. -/
def IsSection (name : String) : Prop :=
  ∃ names, Path.ofText name = Path.ofNames names ∧ Plain names ∧
    (names.head? = some "include" ∨ names.head? = some "lib")

theorem section_of_standard {name : String} (h : name ∈ standardSections) :
    IsSection name ∧ isName name = true := by
  rcases List.mem_cons.1 h with rfl | h
  · exact ⟨⟨["include"], by decide, by decide, .inl rfl⟩, by decide⟩
  · obtain rfl := List.mem_singleton.1 h
    exact ⟨⟨["lib"], by decide, by decide, .inr rfl⟩, by decide⟩

/-- Whether an entry gives a file or link below a directory to a place. -/
def IsFrom (t : Tree) (dir : Path) (item : String × Path) : Prop :=
  IsEntry item (namesOf item.1) ∧ item.2 ∈ t.filesUnder dir

/-- The mapping that puts every file below a directory at the same place below another path. -/
def mappingUnder (t : Tree) (base dir : Path) : List (String × Path) :=
  placedUnder base dir (t.walked dir)

/-- An entry of the mapping of a directory gives a file or link below it to the same place below
another path. -/
theorem entry_of_mem (h : item ∈ mappingUnder t (Path.ofNames names) dir) :
    item.2 ∈ t.filesUnder dir ∧ ∃ d r n, t.locate dir = .ok d ∧ r ≠ [] ∧ t.get? (d ++ r) = some n ∧
      n ≠ .dir ∧ item = ((Path.ofNames (names ++ r)).text, dir.within r) := by
  obtain ⟨source, hsource, rfl⟩ := List.mem_map.1 h
  have hsource := mem_filesUnder_of_walked hsource
  obtain ⟨d, r, n, hlocate, hr, rfl, hn, hne⟩ := exists_of_mem_filesUnder hsource
  have hbelow : (dir.within r).below? dir = some (Path.ofNames r) := by
    simp [Path.below?, Path.within, Path.ofNames]
  refine ⟨hsource, d, r, n, hlocate, hr, hn, hne, ?_⟩
  rw [hbelow]
  rfl

theorem isFrom_of_mem (hplain : Plain names)
    (hsection : names.head? = some "include" ∨ names.head? = some "lib")
    (h : item ∈ mappingUnder t (Path.ofNames names) dir) : IsFrom t dir item := by
  obtain ⟨hunder, d, r, n, hlocate, hr, hn, hne, rfl⟩ := entry_of_mem h
  have hplain' : Plain r := plain_of_get? hn
  have hplace : IsPlace (names ++ r) := by
    refine ⟨plain_append.2 ⟨hplain, hplain'⟩, ?_, ?_⟩
    · cases names with
      | nil => simp at hsection
      | cons first rest =>
        have := List.length_pos_iff.2 hr
        simp only [List.cons_append, List.length_cons, List.length_append]
        omega
    · cases names with
      | nil => simp at hsection
      | cons first rest => exact hsection
  have hentry : IsEntry ((Path.ofNames (names ++ r)).text, dir.within r) (names ++ r) := by
    refine ⟨rfl, hplace, ?_⟩
    rw [Path.hasNull_within hplain']
    have hdir : t.get? d = some .dir := get?_of_append hn hr
    exact hasNull_of_locate hlocate hdir
  refine ⟨?_, hunder⟩
  rw [← hentry.eq_namesOf]
  exact hentry

theorem mem_of_mem_ofList {pairs : List (String × Path)}
    (h : item ∈ (OrderedMap.ofList pairs).pairs) : item ∈ pairs := by
  obtain ⟨key, source⟩ := item
  rw [OrderedMap.mem_pairs_iff, OrderedMap.ofList, OrderedMap.find?_insertAll,
    OrderedMap.find?_empty, Option.or_none, Option.map_eq_some_iff] at h
  obtain ⟨⟨key', source'⟩, hfind, rfl⟩ := h
  have hkey := List.find?_some hfind
  rw [decide_eq_true_eq] at hkey
  rw [← show key' = key from hkey]
  exact List.mem_reverse.1 (List.mem_of_find?_eq_some hfind)

theorem headerMapping_apply (t : Tree) :
    headerMapping l dir place t = match t.surveyed dir with
      | .error e => (.error (.ofRefusal e), t)
      | .ok false => (.error (.caused (.headersNotThere l dir.text)), t)
      | .ok true => (.ok (mappingUnder t (Path.ofText "include" / place) dir), t) := by
  rw [headerMapping, Effect.bind_apply, ask_apply, surveyed]
  rcases t.query dir Tree.isDir with e | _ | _
  · rfl
  · rfl
  · show (ask (Tree.walk · dir) >>= _) t = _
    rw [Effect.bind_apply, ask_apply]
    rw [mappingUnder, walked]
    rcases t.walk dir with e | sources <;> rfl

theorem reads_headerMapping (l : Library) (dir : Path) (place : String) :
    Reads (headerMapping l dir place) := by
  intro t
  rw [headerMapping_apply]
  rcases t.surveyed dir with e | _ | _ <;> rfl

/-- The files of a header directory go to places below `include`. -/
theorem headerMapping_ok {pairs : List (String × Path)} (hplace : IsPrefix place)
    (h : headerMapping l dir place t = (.ok pairs, t')) : ∀ item ∈ pairs, IsFrom t dir item := by
  obtain ⟨names, hnames, hplain⟩ := hplace
  rw [headerMapping_apply] at h
  split at h
  · cases h
  · cases h
  · cases h
    have hbase : Path.ofText "include" / place = Path.ofNames ("include" :: names) := by
      show Path.ofText "include" ++ Path.ofText place = _
      rw [hnames]
      rfl
    rw [hbase]
    exact fun item hitem => isFrom_of_mem (plain_cons.2 ⟨by decide, hplain⟩) (.inl rfl) hitem

/-- The entries of a section of a stage, if the stage has it. -/
def sectionMapping (stage : Path) (name : String) : Action (List (String × Path)) := do
  if ← ask (Tree.query · (stage / name) Tree.isDir) then
    let sources ← ask (Tree.walk · (stage / name))
    return placedUnder (Path.ofText name) (stage / name) sources
  else return []

theorem sectionMapping_apply (t : Tree) (stage : Path) (name : String) :
    sectionMapping stage name t = match t.surveyed (stage / name) with
      | .error e => (.error (.ofRefusal e), t)
      | .ok false => (.ok [], t)
      | .ok true => (.ok (mappingUnder t (Path.ofText name) (stage / name)), t) := by
  rw [sectionMapping, Effect.bind_apply, ask_apply, surveyed]
  rcases t.query (stage / name) Tree.isDir with e | _ | _
  · rfl
  · rfl
  · show (ask (Tree.walk · (stage / name)) >>= _) t = _
    rw [Effect.bind_apply, ask_apply]
    rw [mappingUnder, walked]
    rcases t.walk (stage / name) with e | sources <;> rfl

theorem reads_sectionMapping (stage : Path) (name : String) :
    Reads (sectionMapping stage name) := by
  intro t
  rw [sectionMapping_apply]
  rcases t.surveyed (stage / name) with e | _ | _ <;> rfl

/-- The files of a section go to places below the directory that the section names. -/
theorem sectionMapping_ok {stage : Path} {name : String} {pairs : List (String × Path)}
    (hname : IsSection name) (h : sectionMapping stage name t = (.ok pairs, t')) :
    ∀ item ∈ pairs, IsFrom t (stage / name) item := by
  obtain ⟨names, hnames, hplain, hhead⟩ := hname
  rw [sectionMapping_apply] at h
  split at h
  · cases h
  · cases h
    exact fun item hitem => absurd hitem List.not_mem_nil
  · cases h
    rw [hnames]
    exact fun item hitem => isFrom_of_mem hplain hhead hitem

/-- The entries of the headers that come with a stage. -/
def extraMapping (l : Library) : Option (Path × String) → Action (List (String × Path))
  | some (dir, place) => headerMapping l dir place
  | none => pure []

theorem reads_extraMapping (l : Library) (headers : Option (Path × String)) :
    Reads (extraMapping l headers) := by
  rcases headers with _ | ⟨dir, place⟩
  · exact reads_pure _
  · exact reads_headerMapping l dir place

/-- The entries of a stage after those of its headers. -/
def stageMapping (l : Library) (source : Source) : Action (List (String × Path)) := do
  let headers ← extraMapping l source.headers
  let staged ← source.sections.mapM (sectionMapping source.stage)
  return headers ++ staged.flatten

theorem reads_stageMapping (l : Library) (source : Source) :
    Reads (stageMapping l source) :=
  (reads_extraMapping l source.headers).bind fun _ =>
    (Reads.mapM (reads_sectionMapping source.stage) source.sections).bind fun _ => reads_pure _

/-! ## Requests -/

/-- What is to be installed. -/
inductive Request where
  /-- The files of a stage, with a directory of headers if that is given. -/
  | stage (source : Source)
  /-- A directory of headers, at a place below `include`. -/
  | headers (dir : Path) (place : String)

namespace Request

/-- Installs what a request asks for. -/
def run (root : Path) (l : Library) : Request → Action (List Path)
  | stage source => install root l source
  | headers dir place => installHeaders root l dir place

/-- The mapping that a request asks for. -/
def mapping (l : Library) : Request → Action (OrderedMap String Path)
  | stage source => do
      let absent ← source.expected.filterM fun p => not <$> ask (Tree.query · p Tree.occupies)
      let missing := absent.map Path.text
      if missing ≠ [] then
        Action.fail (.stagedMissing l (missing.mergeSort fun a b => decide (a ≤ b)))
      return .ofList (← stageMapping l source)
  | headers dir place => do
      return .ofList (← headerMapping l dir place)

/-- The directories that a request installs from. -/
def dirs : Request → List Path
  | stage source => (source.headers.map Prod.fst).toList ++ source.sections.map (source.stage / ·)
  | headers dir _ => [dir]

/-- Whether a request names places within the directories of a sysroot. -/
def Normal : Request → Prop
  | stage source => (∀ name ∈ source.sections, IsSection name) ∧
      ∀ dir place, source.headers = some (dir, place) → IsPrefix place
  | headers _ place => IsPrefix place

/-- A request is carried out by reading the tree for a mapping and installing it. -/
theorem run_eq (root : Path) (l : Library) (r : Request) :
    r.run root l = r.mapping l >>= installMapping root l := by
  cases r with
  | stage source =>
    rw [run, mapping, install]
    simp only [stageMapping, bind_assoc, pure_bind]
    refine bind_congr fun absent => ?_
    rcases source.headers with _ | ⟨dir, place⟩
    · split <;> simp only [extraMapping, bind_assoc, pure_bind] <;> rfl
    · split <;> simp only [extraMapping, bind_assoc, pure_bind] <;> rfl
  | headers dir place =>
    rw [run, mapping, installHeaders, bind_assoc]
    simp only [pure_bind]

end Request

namespace Request

/-- Finding out what to install leaves the tree as it is. -/
theorem reads_mapping (l : Library) (r : Request) : Reads (r.mapping l) := by
  cases r with
  | stage source =>
    refine (Reads.filterM (fun p => (reads_ask _).map _) _).bind fun absent => ?_
    have hrest : Reads (do return .ofList (← stageMapping l source) :
        Action (OrderedMap String Path)) :=
      (reads_stageMapping l source).bind fun pairs => reads_pure _
    by_cases hmissing : absent.map Path.text ≠ []
    · simp only [if_pos hmissing]
      exact (reads_fail _).bind fun _ => hrest
    · simp only [if_neg hmissing]
      exact hrest
  | headers dir place => exact (reads_headerMapping l dir place).bind fun pairs => reads_pure _

/-- The directories of headers that a request installs from, with their places below `include`. -/
def headed : Request → List (Path × String)
  | stage source => source.headers.toList
  | headers dir place => [(dir, place)]

/-- The sections that a request installs, each with the stage that it is in. -/
def staged : Request → List (Path × String)
  | stage source => source.sections.map fun name => (source.stage, name)
  | headers .. => []

/-- What a stage asks for is there as expected, and the mapping is made of the headers that come
with it and of its sections. -/
theorem mapping_stage {s : Source} {m : OrderedMap String Path}
    (h : (stage s).mapping l t = (.ok m, t')) :
    (∀ p ∈ s.expected, t.query p Tree.occupies = .ok true) ∧
    ∃ headers staged, extraMapping l s.headers t = (.ok headers, t) ∧
      s.sections.mapM (sectionMapping s.stage) t = (.ok staged, t) ∧
      m = .ofList (headers ++ staged.flatten) := by
  have hreads : ∀ p : Path, Reads (not <$> ask (Tree.query · p Tree.occupies) : Action Bool) :=
    fun p => (reads_ask _).map _
  obtain ⟨absent, t₂, habsent, hrest⟩ := Effect.bind_ok h
  obtain rfl := (Reads.filterM hreads _).eq_of_apply habsent
  by_cases hmissing : absent.map Path.text ≠ []
  · simp only [if_pos hmissing] at hrest
    obtain ⟨_, _, hfail, -⟩ := Effect.bind_ok hrest
    cases hfail
  simp only [if_neg hmissing] at hrest
  have hnone : absent = [] := List.map_eq_nil_iff.1 (not_not.1 hmissing)
  obtain ⟨pairs, t₃, hpairs, hm⟩ := Effect.bind_ok hrest
  cases hm
  obtain ⟨headers, t₄, hheader, hpairs⟩ := Effect.bind_ok hpairs
  obtain ⟨staged, t₅, hstaged, hpairs⟩ := Effect.bind_ok hpairs
  cases hpairs
  obtain rfl := (reads_extraMapping l s.headers).eq_of_apply hheader
  obtain rfl := (Reads.mapM (reads_sectionMapping s.stage) _).eq_of_apply hstaged
  refine ⟨fun p hp => ?_, headers, staged, hheader, hstaged, rfl⟩
  obtain ⟨free, hfree, hkept⟩ := Reads.mem_of_filterM hreads habsent hp
  obtain ⟨there, t₆, hthere, hnot⟩ := Effect.bind_ok hfree
  cases hnot
  cases there with
  | true => exact ask_ok hthere
  | false =>
    rw [hnone] at hkept
    exact absurd (hkept rfl) List.not_mem_nil

/-- Each entry of what a request asks for comes from headers or from a section of a stage. -/
theorem mapping_cases {r : Request} {m : OrderedMap String Path}
    (h : r.mapping l t = (.ok m, t')) : ∀ item ∈ m.pairs,
      (∃ dir place pairs t', (dir, place) ∈ r.headed ∧
        headerMapping l dir place t = (.ok pairs, t') ∧ item ∈ pairs) ∨
      ∃ stage name pairs t', (stage, name) ∈ r.staged ∧
        sectionMapping stage name t = (.ok pairs, t') ∧ item ∈ pairs := by
  cases r with
  | stage source =>
    obtain ⟨-, headers, staged, hheader, hstaged, rfl⟩ := mapping_stage h
    intro item hitem
    rcases List.mem_append.1 (mem_of_mem_ofList hitem) with hmem | hmem
    · rcases hsource : source.headers with _ | ⟨dir, place⟩
      · rw [hsource] at hheader
        cases hheader
        exact absurd hmem List.not_mem_nil
      · rw [hsource] at hheader
        refine .inl ⟨dir, place, headers, _, ?_, hheader, hmem⟩
        rw [headed, hsource]
        exact List.mem_singleton_self _
    · obtain ⟨part, hpart, hmem⟩ := List.mem_flatten.1 hmem
      obtain ⟨name, hname, hsection⟩ :=
        Reads.exists_of_mem_mapM (reads_sectionMapping source.stage) hstaged hpart
      exact .inr ⟨source.stage, name, part, _, List.mem_map.2 ⟨name, hname, rfl⟩, hsection, hmem⟩
  | headers dir place =>
    intro item hitem
    obtain ⟨pairs, t₁, hpairs, hm⟩ := Effect.bind_ok h
    cases hm
    exact .inl ⟨dir, place, pairs, _, List.mem_singleton_self _, hpairs, mem_of_mem_ofList hitem⟩

theorem mem_dirs_of_headed {r : Request} (h : (dir, place) ∈ r.headed) : dir ∈ r.dirs := by
  cases r with
  | stage source =>
    refine List.mem_append_left _ (Option.mem_toList.2 (Option.mem_def.2 ?_))
    rw [Option.mem_def.1 (Option.mem_toList.1 h)]
    rfl
  | headers =>
    cases List.mem_singleton.1 h
    exact List.mem_singleton_self dir

theorem mem_dirs_of_staged {r : Request} {name : String} (h : (dir, name) ∈ r.staged) :
    dir / name ∈ r.dirs := by
  cases r with
  | stage source =>
    obtain ⟨name', hname, heq⟩ := List.mem_map.1 h
    cases heq
    exact List.mem_append_right _ (List.mem_map.2 ⟨_, hname, rfl⟩)
  | headers => cases h

/-- Each entry of what a normal request asks for gives a file or link below one of its directories
to a place of its own. -/
theorem mapping_ok {r : Request} {m : OrderedMap String Path} (hr : r.Normal)
    (h : r.mapping l t = (.ok m, t')) : ∀ item ∈ m.pairs, ∃ dir ∈ r.dirs, IsFrom t dir item := by
  intro item hitem
  rcases mapping_cases h item hitem with ⟨dir, place, pairs, _, hin, hpairs, hmem⟩ |
    ⟨stage, name, pairs, _, hin, hpairs, hmem⟩
  · refine ⟨dir, mem_dirs_of_headed hin, headerMapping_ok ?_ hpairs item hmem⟩
    cases r with
    | stage source => exact hr.2 dir place (Option.mem_def.1 (Option.mem_toList.1 hin))
    | headers =>
      cases List.mem_singleton.1 hin
      exact hr
  · refine ⟨stage / name, mem_dirs_of_staged hin, sectionMapping_ok ?_ hpairs item hmem⟩
    cases r with
    | stage source =>
      obtain ⟨name', hname, heq⟩ := List.mem_map.1 hin
      cases heq
      exact hr.1 _ hname
    | headers => cases hin

end Request

/-! ## Carrying a request out -/

variable {R : Location} {k : Nat} {m : OrderedMap String Path} {owned : OrderedMap String Library}
  {other : Library} {key : String}

theorem installMapping_apply (root : Path) (l : Library) (m : OrderedMap String Path) (t : Tree) :
    installMapping root l m t = match owners root t with
      | (.error fault, t₁) => (.error fault, t₁)
      | (.ok owned, t₁) => match collisions owned l m with
        | [] => transact root l m t₁
        | first :: rest =>
            (.error (.caused (.ownedByOther l (first :: rest) ((owned.find? first).getD l))),
              t₁) := by
  rw [installMapping, Effect.bind_apply]
  rcases owners root t with ⟨e | owned, t₁⟩
  · rfl
  · simp only []
    rcases collisions owned l m with _ | ⟨first, rest⟩ <;> rfl

/-- A request fails before it touches anything, or it is carried out as one transaction. -/
theorem Request.run_cases (root : Path) (l : Library) (r : Request) (t : Tree) :
    (∃ fault, r.run root l t = (.error fault, t)) ∨
    ∃ m owned, r.mapping l t = (.ok m, t) ∧ owners root t = (.ok owned, t) ∧
      collisions owned l m = [] ∧ r.run root l t = transact root l m t := by
  rw [Request.run_eq, Effect.bind_apply]
  rcases hm : r.mapping l t with ⟨fault | m, t₁⟩
  · obtain rfl := (Request.reads_mapping l r).eq_of_apply hm
    exact .inl ⟨fault, rfl⟩
  obtain rfl := (Request.reads_mapping l r).eq_of_apply hm
  simp only [installMapping_apply]
  rcases howned : owners root t₁ with ⟨fault | owned, t₂⟩
  · obtain rfl := (reads_owners root).eq_of_apply howned
    exact .inl ⟨fault, rfl⟩
  obtain rfl := (reads_owners root).eq_of_apply howned
  simp only []
  rcases hcollisions : collisions owned l m with _ | ⟨first, rest⟩
  · exact .inr ⟨m, owned, rfl, rfl, hcollisions, rfl⟩
  · exact .inl ⟨_, rfl⟩

/-- A request whose mapping collides with nothing is carried out as a transaction. -/
theorem Request.run_of_mapping {r : Request} (hm : r.mapping l t = (.ok m, t))
    (howned : owners root t = (.ok owned, t)) (hnone : collisions owned l m = []) :
    r.run root l t = transact root l m t := by
  rw [Request.run_eq, Effect.bind_apply, hm]
  simp only [installMapping_apply, howned, hnone]

/-- Without collisions, what is to be installed has no owner but the library. -/
theorem owner_of_no_collision (h : collisions owned l m = []) (hkey : key ∈ m.keys)
    (hother : owned.find? key = some other) : other = l := by
  by_contra hne
  have hmem : key ∈ collisions owned l m := by
    rw [collisions, List.mem_mergeSort, List.mem_filter]
    exact ⟨hkey, by simp [hother, hne]⟩
  rw [h] at hmem
  exact absurd hmem List.not_mem_nil

theorem Ready.entry_of_key (h : Ready t root R k l m) (hkey : key ∈ m.keys) :
    IsPlace (namesOf key) ∧ key = (Path.ofNames (namesOf key)).text := by
  obtain ⟨item, hitem, rfl⟩ := List.mem_map.1 hkey
  exact ⟨(h.entries item hitem).place, (h.entries item hitem).key⟩

end Sysroot.Install

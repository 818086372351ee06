import Sysroot.Proofs.Install.Recording
import Sysroot.Proofs.Library.Reading
import Sysroot.Proofs.Tree.Walking

/-!
# Who owns what

The manifests of a sysroot are the entries of their directory whose names fit the pattern
(`mem_manifests`).  When the owners can be told, each manifest could be read, and the owner of a
path is a library whose manifest lists it (`owners_ok`).
-/

namespace Sysroot.Tree

variable {t : Tree} {l : Location} {name text : String} {dir p : Path}

/-- The names in a directory in a form that evaluates in proofs. -/
theorem children_eq_insertionSort (t : Tree) (l : Location) : t.children l =
    (t.entries.filterMap fun p => if p.1.dropLast = l then p.1.getLast? else none).insertionSort
      (· ≤ ·) :=
  List.mergeSort_eq_insertionSort (· ≤ ·) _

/-- A wild component selects by the names in a directory. -/
theorem select_wild (text : String) (hdir : t.query dir isDir = .ok true) :
    t.select dir ⟨[.wild text], false⟩ = .ok (Path.sort ((t.list dir).map fun name =>
      if Pattern.matchName text name = true then [dir.within [name]] else []).flatten.eraseDups) := by
  have hstep : ∀ name : String, (if Pattern.matchName text name = true then
      .ok [⟨dir.anchor, dir.parts ++ [name]⟩] else pure [] : Except SystemError (List Path)) =
      .ok (if Pattern.matchName text name = true then [dir.within [name]] else []) := by
    intro name
    cases Pattern.matchName text name <;> rfl
  have hfound : selectFrom t false dir [.wild text] = .ok ((t.list dir).map fun name =>
      if Pattern.matchName text name = true then [dir.within [name]] else []).flatten := by
    rw [selectFrom]
    simp only [decide_true, Bool.not_false, Bool.and_self, if_true, pure_bind, selectFrom,
      Bool.true_and, hstep]
    have hmap : ∀ names : List String, (names.mapM fun name => (Except.ok
        (if Pattern.matchName text name = true then [dir.within [name]] else []) :
          Except SystemError (List Path))) = .ok (names.map fun name =>
            if Pattern.matchName text name = true then [dir.within [name]] else []) :=
      fun names => List.mapM_pure
    rw [hmap]
    rfl
  rw [select, hdir]
  simp only [bind, Except.bind, hfound, if_true]
  rfl

/-- The paths in a directory whose names fit a wild component. -/
theorem mem_select (text : String) (hdir : t.query dir isDir = .ok true) :
    ∃ paths, t.select dir ⟨[.wild text], false⟩ = .ok paths ∧
      ∀ p, p ∈ paths ↔ ∃ name ∈ t.list dir, Pattern.matchName text name = true ∧
        p = dir.within [name] := by
  refine ⟨_, select_wild text hdir, fun p => ?_⟩
  rw [Path.sort, List.mem_mergeSort, List.mem_eraseDups, List.mem_flatten]
  constructor
  · rintro ⟨ps, hps, hp⟩
    obtain ⟨name, hname, rfl⟩ := List.mem_map.1 hps
    split at hp
    · next hmatch => exact ⟨name, hname, hmatch, List.mem_singleton.1 hp⟩
    · cases hp
  · rintro ⟨name, hname, hmatch, rfl⟩
    exact ⟨_, List.mem_map.2 ⟨name, hname, rfl⟩, by rw [if_pos hmatch]; exact List.mem_cons_self⟩

end Sysroot.Tree

namespace Sysroot.Install

open Sysroot.Tree Sysroot.Tree.Action

variable {t t' : Tree} {root : Path} {R : Location} {k : Nat} {l : Library} {f : String}
  {owned owned' : OrderedMap String Library} {paths : List Path}

/-! ## The manifests -/

theorem stem_manifestPath (root : Path) (l : Library) : (manifestPath root l).stem = l.name := by
  have hname : (manifestPath root l).name = l.name ++ ".json" := by
    rw [manifestPath_eq, Path.name, Path.parts_within, manifestNames, List.getLast?_append]
    rfl
  rw [Path.stem, hname]
  cases l <;> rfl

theorem matchName_manifest (l : Library) :
    Pattern.matchName "*.json" (l.name ++ ".json") = true := by
  cases l <;> cbv

/-- Where the path of a manifest fits, so does that of the directory of the manifests. -/
theorem fits_manifests (h : Fits root (manifestNames l)) : Fits root [".manifests"] := by
  have hplain : Plain ([".manifests"] ++ [l.name ++ ".json"]) := plain_manifestNames l
  exact Fits.of_append h (plain_append.1 hplain).2

section

variable (h : Seat t root R k) (hfits : Fits root [".manifests"])
  (hdir : t.get? (R ++ [".manifests"]) = some .dir)

include h hfits hdir

theorem locate_manifestDir : t.locate (manifestDir root) = .ok (R ++ [".manifests"]) := by
  have hplain : Plain ([] ++ [".manifests"]) := by simp; decide
  have hhere : t.get? (R ++ ([] : List String)) = some .dir := by
    rw [List.append_nil]
    exact h.dir
  rw [manifestDir_eq, h.locate (List.cons_ne_nil _ _) hplain hfits]
  exact locateFrom_concat hplain hhere (.inr fun _ => by rw [List.nil_append, hdir]; exact nofun)

/-- What is listed in the directory of manifests is what is there. -/
theorem list_manifestDir : t.list (manifestDir root) = t.children (R ++ [".manifests"]) := by
  rw [list, locate_manifestDir h hfits hdir]
  exact if_pos hdir

/-- The manifests of a sysroot are the entries of their directory whose names fit the pattern. -/
theorem mem_manifests :
    ∃ paths, manifests t root = .ok paths ∧ ∀ p, p ∈ paths ↔ ∃ name n,
      t.get? (R ++ [".manifests", name]) = some n ∧ Pattern.matchName "*.json" name = true ∧
        p = root.within [".manifests", name] := by
  have hlocate := locate_manifestDir h hfits hdir
  have hquery : t.query (manifestDir root) isDir = .ok true := by
    rw [query_eq_ok (by rw [hlocate]; exact nofun), isDir, node?, hlocate]
    simp [hdir]
  obtain ⟨paths, hpaths, hmem⟩ := mem_select "*.json" hquery
  refine ⟨paths, hpaths, fun p => ?_⟩
  rw [hmem p, list_manifestDir h hfits hdir]
  constructor
  · rintro ⟨name, hname, hmatch, rfl⟩
    obtain ⟨n, hn⟩ := mem_children.1 hname
    refine ⟨name, n, by simpa using hn, hmatch, ?_⟩
    rw [manifestDir_eq, Path.within_within]
    rfl
  · rintro ⟨name, n, hn, hmatch, rfl⟩
    refine ⟨name, mem_children.2 ⟨n, by simpa using hn⟩, hmatch, ?_⟩
    rw [manifestDir_eq, Path.within_within]
    rfl

end

/-! ## The owners -/

theorem ownersFrom_cons (p : Path) (rest : List Path) :
    ownersFrom root owned (p :: rest) t = match Library.read p.stem with
      | .error e => (.error (.caused e), t)
      | .ok l => match readManifest root l t with
        | (.error fault, t₁) => (.error fault, t₁)
        | (.ok files, t₁) =>
          ownersFrom root (owned.insertAll (files.map fun f => (f, l))) rest t₁ := by
  rw [ownersFrom, Effect.bind_apply]
  rcases Library.read p.stem with e | l
  · rfl
  · show (readManifest root l >>= _) t = _
    rw [Effect.bind_apply]
    simp only []
    rcases readManifest root l t with ⟨e | files, t₁⟩ <;> rfl

theorem find?_insertAll_library (owned : OrderedMap String Library) (files : List String)
    (l : Library)
    (f : String) :
    (owned.insertAll (files.map fun f => (f, l))).find? f =
      if f ∈ files then some l else owned.find? f := by
  rw [OrderedMap.find?_insertAll]
  by_cases hf : f ∈ files
  · have hfind : ((files.map fun f => (f, l)).reverse.find? fun p => p.1 = f) = some (f, l) := by
      have hsome : ((files.map fun f => (f, l)).reverse.find? fun p => p.1 = f).isSome := by
        rw [List.find?_isSome]
        exact ⟨(f, l), by simpa using hf, by simp⟩
      obtain ⟨q, hq⟩ := Option.isSome_iff_exists.1 hsome
      have hqf := List.find?_some hq
      rw [decide_eq_true_eq] at hqf
      obtain ⟨g, -, rfl⟩ := List.mem_map.1 (List.mem_reverse.1 (List.mem_of_find?_eq_some hq))
      rw [hq, ← show g = f from hqf]
    rw [hfind, if_pos hf]
    rfl
  · have hfind : ((files.map fun f => (f, l)).reverse.find? fun p => p.1 = f) = none := by
      rw [List.find?_eq_none]
      intro q hq heq
      obtain ⟨g, hg, rfl⟩ := List.mem_map.1 (List.mem_reverse.1 hq)
      exact hf (of_decide_eq_true heq ▸ hg)
    rw [hfind, if_neg hf]
    rfl

/-- Whether a library has a manifest among paths that lists a file. -/
def ListedIn (root : Path) (t : Tree) (paths : List Path) (f : String) (l : Library) : Prop :=
  ∃ p ∈ paths, Library.read p.stem = .ok l ∧
    ∃ files, readManifest root l t = (.ok files, t) ∧ f ∈ files

/-- When the owners of the paths of some manifests can be told, each of them could be read, and the
owner of a path is one that lists it. -/
theorem ownersFrom_ok (h : ownersFrom root owned paths t = (.ok owned', t')) :
    t' = t ∧
      (∀ p ∈ paths, ∃ l files,
        Library.read p.stem = .ok l ∧ readManifest root l t = (.ok files, t)) ∧
      (∀ f l, owned'.find? f = some l → owned.find? f = some l ∨ ListedIn root t paths f l) ∧
      ∀ f, (owned.find? f).isSome = true ∨ (∃ l, ListedIn root t paths f l) →
        (owned'.find? f).isSome = true := by
  induction paths generalizing owned t with
  | nil =>
    cases h
    refine ⟨rfl, by simp, fun f l hf => .inl hf, ?_⟩
    rintro f (hf | ⟨l, p, hp, -⟩)
    · exact hf
    · cases hp
  | cons p rest ih =>
    rw [ownersFrom_cons] at h
    rcases hread : Library.read p.stem with e | l
    · rw [hread] at h
      cases h
    rw [hread] at h
    rcases hfiles : readManifest root l t with ⟨fault | files, t₁⟩
    · simp only [hfiles] at h
      cases h
    simp only [hfiles] at h
    obtain rfl := (reads_readManifest root l).eq_of_apply hfiles
    obtain ⟨rfl, hall, hfrom, hto⟩ := ih h
    refine ⟨rfl, ?_, ?_, ?_⟩
    · intro q hq
      rcases List.mem_cons.1 hq with rfl | hq
      · exact ⟨l, files, hread, hfiles⟩
      · exact hall q hq
    · intro f l' hf
      rcases hfrom f l' hf with hf | ⟨q, hq, hlisted⟩
      · rw [find?_insertAll_library] at hf
        split at hf
        · next hmem =>
          cases hf
          exact .inr ⟨p, List.mem_cons_self, hread, files, hfiles, hmem⟩
        · exact .inl hf
      · exact .inr ⟨q, List.mem_cons_of_mem p hq, hlisted⟩
    · intro f hf
      refine hto f ?_
      rw [find?_insertAll_library]
      rcases hf with hf | ⟨l', q, hq, hread', files', hfiles', hmem⟩
      · left
        split
        · rfl
        · exact hf
      · rcases List.mem_cons.1 hq with rfl | hq
        · rw [hread] at hread'
          cases hread'
          rw [hfiles] at hfiles'
          cases hfiles'
          left
          rw [if_pos hmem]
          rfl
        · exact .inr ⟨l', q, hq, hread', files', hfiles', hmem⟩

/-- The owners can be told when each manifest can be read. -/
theorem ownersFrom_of_readable (h : ∀ p ∈ paths, ∃ l files, Library.read p.stem = .ok l ∧
    readManifest root l t = (.ok files, t)) :
    ∃ owned', ownersFrom root owned paths t = (.ok owned', t) := by
  induction paths generalizing owned with
  | nil => exact ⟨owned, rfl⟩
  | cons p rest ih =>
    obtain ⟨l, files, hread, hfiles⟩ := h p List.mem_cons_self
    rw [ownersFrom_cons, hread]
    simp only [hfiles]
    exact ih fun q hq => h q (List.mem_cons_of_mem p hq)

theorem owners_apply (root : Path) (t : Tree) :
    owners root t = match manifests t root with
      | .error e => (.error (.ofRefusal e), t)
      | .ok paths => ownersFrom root .empty paths t := by
  rw [owners, Effect.bind_apply, ask_apply]
  rcases manifests t root with e | paths <;> rfl

theorem owners_ok {t' : Tree} (h : owners root t = (.ok owned, t')) :
    ∃ paths, manifests t root = .ok paths ∧ ownersFrom root .empty paths t = (.ok owned, t') := by
  rw [owners_apply] at h
  rcases hpaths : manifests t root with e | paths
  · rw [hpaths] at h
    cases h
  · rw [hpaths] at h
    exact ⟨paths, rfl, h⟩

/-- When the owners can be told, a manifest that is there can be read, and each path it lists has an
owner. -/
theorem owners_read {t' : Tree} (h : owners root t = (.ok owned, t')) (hseat : Seat t root R k)
    (hnull : hasNull root.text = false) {n : Node} (hn : t.get? (R ++ manifestNames l) = some n) :
    ∃ files, readManifest root l t = (.ok files, t) ∧
      ∀ f ∈ files, (owned.find? f).isSome = true := by
  have hdir : t.get? (R ++ [".manifests"]) = some .dir := get?_of_concat (r := [".manifests"]) hn
  obtain ⟨paths, hpaths, hfrom⟩ := owners_ok h
  have hfits : Fits root [".manifests"] := by
    by_contra hno
    rw [manifests, select, manifestDir_eq, query_of_not_fits hnull (by simp; decide) hno] at hpaths
    cases hpaths
  obtain ⟨paths', hpaths', hmem⟩ := mem_manifests hseat hfits hdir
  rw [hpaths] at hpaths'
  cases hpaths'
  have hin : manifestPath root l ∈ paths :=
    (hmem _).2 ⟨l.name ++ ".json", n, hn, matchName_manifest l, manifestPath_eq root l⟩
  obtain ⟨-, hread, -, hto⟩ := ownersFrom_ok hfrom
  obtain ⟨l', files, hl', hfiles⟩ := hread _ hin
  rw [stem_manifestPath, Library.read_name] at hl'
  cases hl'
  refine ⟨files, hfiles, fun f hf => hto f (.inr ⟨l, _, hin, ?_, files, hfiles, hf⟩)⟩
  rw [stem_manifestPath, Library.read_name]

/-- When the owners can be told, what is in a manifest can be read. -/
theorem owners_readable {t' : Tree} (h : owners root t = (.ok owned, t')) (hseat : Seat t root R k)
    (hnull : hasNull root.text = false) {content : List UInt8} {executable : Bool}
    (hfile : t.get? (R ++ manifestNames l) = some (.file content executable)) :
    ∃ files, filesOf root l content = .ok files := by
  have hdir : t.get? (R ++ [".manifests"]) = some .dir := get?_of_concat (r := [".manifests"]) hfile
  obtain ⟨files, hfiles, -⟩ := owners_read h hseat hnull hfile
  have hfits : Fits root (manifestNames l) := by
    by_contra hno
    obtain ⟨e, he⟩ := readManifest_of_not_fits (t := t) hnull hno
    rw [hfiles] at he
    cases he
  rw [readManifest_of_seat hseat hnull hdir (fun _ => by rw [hfile]; exact nofun) hfits,
    hfile] at hfiles
  exact ⟨files, congrArg Prod.fst hfiles⟩

/-- A manifest that lists something is there. -/
theorem exists_of_readManifest {t' : Tree} {files : List String} (hseat : Seat t root R k)
    (hnull : hasNull root.text = false) (hlinks : NoDirLinks t R k)
    (h : readManifest root l t = (.ok files, t')) (hf : f ∈ files) :
    ∃ n, t.get? (R ++ manifestNames l) = some n := by
  have hplain : Plain ([".manifests"] ++ [l.name ++ ".json"]) := plain_manifestNames l
  have hfits : Fits root (manifestNames l) := by
    by_contra hno
    obtain ⟨e, he⟩ := readManifest_of_not_fits (t := t) hnull hno
    rw [h] at he
    cases he
  rw [readManifest_apply, manifestPath_eq] at h
  have hholds : t.holds (root.within (manifestNames l)) = true := by
    rcases hquery : t.query (root.within (manifestNames l)) holds with e | _ | _
    · rw [hquery] at h
      cases h
    · rw [hquery] at h
      cases h
      exact absurd hf List.not_mem_nil
    · exact (query_ok hquery).resolve_right nofun
  have hoccupies := hseat.occupies hplain hlinks.straight hfits
  rw [occupies, show root.within ([".manifests"] ++ [l.name ++ ".json"]) =
    root.within (manifestNames l) from rfl, hholds, Bool.true_or] at hoccupies
  exact Option.isSome_iff_exists.1 hoccupies.symm

/-- The owner of a path lists it in its manifest. -/
theorem owners_lists {t' : Tree} (h : owners root t = (.ok owned, t'))
    (hf : owned.find? f = some l) :
    ∃ files, readManifest root l t = (.ok files, t) ∧ f ∈ files := by
  obtain ⟨paths, -, hfrom⟩ := owners_ok h
  obtain ⟨-, -, hlisted, -⟩ := ownersFrom_ok hfrom
  rcases hlisted f l hf with hempty | ⟨p, -, -, hfiles⟩
  · rw [OrderedMap.find?_empty] at hempty
    cases hempty
  · exact hfiles

/-- Telling the owners leaves the tree as it is. -/
theorem reads_owners (root : Path) : Reads (owners root) := by
  have hfrom : ∀ (paths : List Path) (owned : OrderedMap String Library),
      Reads (ownersFrom root owned paths) := by
    intro paths
    induction paths with
    | nil => exact fun owned => reads_pure _
    | cons p rest ih =>
      exact fun owned => (reads_ofExcept _).bind fun l =>
        (reads_readManifest root l).bind fun files => ih _
  exact (reads_ask _).bind fun paths => hfrom paths _

end Sysroot.Install

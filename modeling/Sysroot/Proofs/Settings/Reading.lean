import Sysroot.Proofs.Library.Reading
import Sysroot.Proofs.Text.Lines
import Sysroot.Settings

/-!
# What settings are read from JSON

Each key of an object is read on its own, so what settings come of an object is told key by key
(`Settings.Describes`, `Settings.ofJson_eq_ok_iff`).  There are such settings exactly when the value of
each key is one that the key may have (`Settings.Admissible`), and what is not read is refused with a
cause (`Settings.ofJson_exact`).

A list of names is written as a list of texts or as one text with commas between the names.  The entries
between the commas are those of the list (`Settings.Lists`), so one form can stand for the other.
-/

namespace Sysroot.Settings

open Effect

variable {v v' w : Json} {key text : String} {entries : List String} {base p : Path} {s s' : Settings}
  {named ls : List Library}

/-! ## The values of keys -/

/-- The entries of a value that lists texts: a list has its members, and a text has what stands between
its commas. -/
inductive Lists : Json → List String → Prop
  | text {entries : List String} (hne : entries ≠ []) (hcomma : ∀ entry ∈ entries, ',' ∉ entry.toList) :
      Lists (.str (Text.join "," entries)) entries
  | items (entries : List String) : Lists (.arr (entries.map .str)) entries

/-- Whether a value lists the names of libraries, with blank texts among them. -/
def ListsLibraries (w : Json) (named : List Library) : Prop :=
  ∃ entries, Lists w entries ∧ Library.Names entries named

/-- Whether a text names a path: an absolute text names its own path, any other one a path below the
base. -/
def Places (base : Path) (text : String) (p : Path) : Prop :=
  if (Path.ofText text).isAbsolute then p = Path.ofText text
  else p = ⟨base.anchor, base.parts ++ (Path.ofText text).parts⟩

theorem pathBelow_eq_iff : pathBelow base text = p ↔ Places base text p := by
  have happend : pathBelow base text = if (Path.ofText text).isAbsolute then Path.ofText text
      else ⟨base.anchor, base.parts ++ (Path.ofText text).parts⟩ := rfl
  rw [happend, Places]
  split <;> exact eq_comm

theorem lists_str_iff : Lists (.str text) entries ↔ Text.split ',' text = entries := by
  rw [Text.split_eq_iff (show ",".toList = [','] from rfl)]
  constructor
  · intro h
    cases h with
    | text hne hcomma => exact ⟨hne, hcomma, rfl⟩
  · rintro ⟨hne, hcomma, rfl⟩
    exact .text hne hcomma

theorem mapM_asText?_eq_some_iff {items : List Json} :
    items.mapM asText? = some entries ↔ items = entries.map .str := by
  induction items generalizing entries with
  | nil => cases entries <;> simp
  | cons item items ih =>
    simp only [List.mapM_cons, Option.bind_eq_bind, Option.bind_eq_some_iff, ih]
    constructor
    · rintro ⟨entry, hentry, entries, rfl, ⟨⟩⟩
      cases item <;> cases hentry
      rfl
    · intro h
      cases entries with
      | nil => cases h
      | cons entry entries =>
        cases h
        exact ⟨entry, rfl, entries, rfl, rfl⟩

theorem lists_arr_iff {items : List Json} :
    Lists (.arr items) entries ↔ items.mapM asText? = some entries := by
  rw [mapM_asText?_eq_some_iff]
  constructor
  · intro h
    cases h
    rfl
  · rintro rfl
    exact .items entries

/-! ## Reading a key -/

theorem requiredText_eq_ok_iff : requiredText v key = .ok text ↔
    text ≠ "" ∧ v.field? key = some (.str text) := by
  rw [requiredText]
  split
  · next s hs =>
    rw [hs]
    split
    · next hempty =>
      refine ⟨nofun, ?_⟩
      rintro ⟨hne, heq⟩
      cases heq
      exact absurd hempty hne
    · next hne =>
      constructor
      · rintro ⟨⟩
        exact ⟨hne, rfl⟩
      · rintro ⟨-, ⟨⟩⟩
        rfl
  · next hother => exact ⟨nofun, fun h => absurd h.2 (hother text)⟩

theorem optionalText_eq_ok_iff {o : Option String} : optionalText v key = .ok o ↔
    (v.field? key).elim (o = none) fun w =>
      (w = .null ∧ o = none) ∨ ∃ text ≠ "", w = .str text ∧ o = some text := by
  rw [optionalText]
  cases v.field? key with
  | none => simp [eq_comm]
  | some w =>
    cases w with
    | null => simp [eq_comm]
    | str text =>
      dsimp only [Option.elim_some]
      split
      · next hempty => simp [hempty]
      · next hne => simp [hne, eq_comm]
    | _ => simp

theorem libraryNames_eq_ok_iff {value : Option Json} {standard : List Library} :
    libraryNames value standard key = .ok entries ↔
      value.elim (entries = standard.map Library.name) (Lists · entries) := by
  cases value with
  | none => simp [libraryNames, eq_comm]
  | some w =>
    cases w with
    | str text => simp [libraryNames, lists_str_iff]
    | arr items =>
      dsimp only [libraryNames, Option.elim_some]
      rw [lists_arr_iff]
      cases items.mapM asText? <;> simp
    | _ => exact ⟨nofun, nofun⟩

theorem wholeNumber_eq_ok_iff {standard n : Int} : wholeNumber v key standard = .ok n ↔
    (v.field? key).elim (n = standard) (· = .int n) := by
  rw [wholeNumber]
  cases v.field? key with
  | none => simp [eq_comm]
  | some w => cases w <;> simp

theorem truthValue_eq_ok_iff {standard b : Bool} : truthValue v key standard = .ok b ↔
    (v.field? key).elim (b = standard) (· = .bool b) := by
  rw [truthValue]
  cases v.field? key with
  | none => simp [eq_comm]
  | some w => cases w <;> simp

theorem checked_eq_ok_iff : checked s = .ok s' ↔
    s = s' ∧ 1 ≤ s.workers ∧ 1 ≤ s.tailBytes ∧ s.libraries ≠ [] := by
  rw [checked]
  split
  · exact ⟨nofun, fun h => by omega⟩
  · split
    · exact ⟨nofun, fun h => by omega⟩
    · split
      · next hnil => exact ⟨nofun, fun h => absurd hnil h.2.2.2⟩
      · next hne =>
        rw [Except.ok.injEq]
        exact (and_iff_left ⟨by omega, by omega, hne⟩).symm

/-! ## What is read -/

/-- Which settings an object describes, key by key. -/
structure Describes (base : Path) (v : Json) (s : Settings) : Prop where
  sourcesDir : ∃ text ≠ "", v.field? "sources_dir" = some (.str text) ∧ Places base text s.sourcesDir
  buildRoot : ∃ text ≠ "", v.field? "build_root" = some (.str text) ∧ Places base text s.buildRoot
  sysrootDir : ∃ text ≠ "", v.field? "sysroot_dir" = some (.str text) ∧ Places base text s.sysrootDir
  libraries : (v.field? "libraries").elim (s.libraries = Catalog.standardRequest) fun w =>
    ∃ named ≠ [], ListsLibraries w named ∧ Library.FirstsOf named s.libraries
  llvmSource : (v.field? "llvm_src").elim (s.llvmSource = none) fun w =>
    (w = .null ∧ s.llvmSource = none) ∨
      ∃ text ≠ "", w = .str text ∧ ∃ p, s.llvmSource = some p ∧ Places base text p
  workers : (v.field? "workers").elim (s.workers = 1) fun w => w = .int s.workers ∧ 1 ≤ s.workers
  clobber : (v.field? "clobber").elim (s.clobber = []) fun w =>
    (w = .str "all" ∧ s.clobber = Library.all) ∨
      (w ≠ .str "all" ∧ ∃ named, ListsLibraries w named ∧ s.clobber = asSet named)
  emitWast : (v.field? "emit_wast").elim (s.emitWast = false) (· = .bool s.emitWast)
  includePrerequisites : (v.field? "include_prerequisites").elim (s.includePrerequisites = true)
    (· = .bool s.includePrerequisites)
  tailBytes : (v.field? "stderr_tail_bytes").elim (s.tailBytes = standardTailBytes) fun w =>
    w = .int s.tailBytes ∧ 1 ≤ s.tailBytes

theorem asSet_congr {ls ls' : List Library} (h : ∀ l, l ∈ ls ↔ l ∈ ls') : asSet ls = asSet ls' :=
  List.filter_congr fun l _ => decide_eq_decide.2 (h l)

theorem elim_and_iff {α : Type} {o : Option α} {P R : Prop} {Q : α → Prop} (h : P → R) :
    (o.elim P Q ∧ R) ↔ o.elim P fun a => Q a ∧ R := by
  cases o with
  | none => exact and_iff_left_of_imp h
  | some a => exact Iff.rfl

theorem of_elim {α : Type} {o : Option α} {P R : Prop} {Q : α → Prop} (h : o.elim P Q) (hnone : P → R)
    (hsome : ∀ a, Q a → R) : R := by
  cases o with
  | none => exact hnone h
  | some a => exact hsome a h

theorem elim_positive_iff {value : Option Json} {standard n : Int} (hstandard : 1 ≤ standard) :
    (value.elim (n = standard) (· = .int n) ∧ 1 ≤ n) ↔
      value.elim (n = standard) fun w => w = .int n ∧ 1 ≤ n :=
  elim_and_iff fun h => h ▸ hstandard

/-- The path of the key that may be `null`. -/
theorem exists_llvmSource_iff {value : Option Json} {path : Option Path} :
    (∃ o : Option String, (value.elim (o = none) fun w =>
      (w = .null ∧ o = none) ∨ ∃ text ≠ "", w = .str text ∧ o = some text) ∧
        o.map (pathBelow base) = path) ↔
    value.elim (path = none) fun w => (w = .null ∧ path = none) ∨
      ∃ text ≠ "", w = .str text ∧ ∃ p, path = some p ∧ Places base text p := by
  cases value with
  | none => simp [eq_comm]
  | some w =>
    dsimp only [Option.elim_some]
    constructor
    · rintro ⟨o, ⟨hw, rfl⟩ | ⟨text, hne, hw, rfl⟩, rfl⟩
      · exact .inl ⟨hw, rfl⟩
      · exact .inr ⟨text, hne, hw, _, rfl, pathBelow_eq_iff.1 rfl⟩
    · rintro (⟨hw, rfl⟩ | ⟨text, hne, hw, p, rfl, hp⟩)
      · exact ⟨none, .inl ⟨hw, rfl⟩, rfl⟩
      · exact ⟨some text, .inr ⟨text, hne, hw, rfl⟩, congrArg some (pathBelow_eq_iff.2 hp)⟩

/-- The libraries that are asked for when the key of libraries has a value. -/
theorem exists_libraries_iff {value : Option Json} {standard : List Library} (hnodup : standard.Nodup)
    (hne : standard ≠ []) :
    ((∃ entries, libraryNames value standard key = .ok entries ∧ Library.readAll entries = .ok ls) ∧
      ls ≠ []) ↔
    value.elim (ls = standard) fun w =>
      ∃ named ≠ [], ListsLibraries w named ∧ Library.FirstsOf named ls := by
  simp only [libraryNames_eq_ok_iff]
  cases value with
  | none =>
    simp only [Option.elim_none, exists_eq_left, Library.readAll_map_name hnodup, Except.ok.injEq]
    exact ⟨fun h => h.1.symm, fun h => ⟨h.symm, h ▸ hne⟩⟩
  | some w =>
    simp only [Option.elim_some, Library.readAll_eq_ok_iff]
    constructor
    · rintro ⟨⟨entries, hlists, named, hnames, hfirsts⟩, hls⟩
      exact ⟨named, mt hfirsts.eq_nil_iff.2 hls, ⟨entries, hlists, hnames⟩, hfirsts⟩
    · rintro ⟨named, hnamed, ⟨entries, hlists, hnames⟩, hfirsts⟩
      exact ⟨⟨entries, hlists, named, hnames, hfirsts⟩, mt hfirsts.eq_nil_iff.1 hnamed⟩

theorem other_of_ne {value : Option Json} : value ≠ some (.str "all") →
    (match value with
      | some (.str "all") => none
      | other => some other) = some value := by
  intro hall
  split
  · exact absurd rfl hall
  · rfl

/-- What goes on with the libraries whose build directories are removed first. -/
theorem clobber_eq_ok_iff {α : Type} {value : Option Json} {f : List Library → Except Cause α} {a : α} :
    (match (match value with
        | some (.str "all") => none
        | other => some other) with
      | none => pure Library.all >>= f
      | some names => libraryNames names [] "clobber" >>= fun texts => Library.readAll texts >>= f) =
        .ok a ↔
    ∃ ls, f ls = .ok a ∧ value.elim (ls = []) fun w => (w = .str "all" ∧ ls = Library.all) ∨
      (w ≠ .str "all" ∧ ∃ named, ListsLibraries w named ∧ Library.FirstsOf named ls) := by
  by_cases hall : value = some (.str "all")
  · subst hall
    simp [pure, Except.pure, except_ok_bind]
  · rw [other_of_ne hall]
    simp only [except_bind_eq_ok_iff, libraryNames_eq_ok_iff]
    cases value with
    | none =>
      have hnil : Library.readAll [] = .ok [] := rfl
      simp [hnil]
    | some w =>
      have hw : w ≠ .str "all" := fun h => hall (congrArg some h)
      simp only [Option.elim_some, Library.readAll_eq_ok_iff, hw, false_and, false_or, ne_eq,
        not_false_eq_true, true_and]
      constructor
      · rintro ⟨entries, hlists, ls, ⟨named, hnames, hfirsts⟩, hf⟩
        exact ⟨ls, hf, named, ⟨entries, hlists, hnames⟩, hfirsts⟩
      · rintro ⟨ls, hf, named, ⟨entries, hlists, hnames⟩, hfirsts⟩
        exact ⟨entries, hlists, ls, ⟨named, hnames, hfirsts⟩, hf⟩

/-- The libraries whose build directories are removed first are a set of those that are named. -/
theorem exists_clobber_iff {value : Option Json} {set : List Library} :
    (∃ ls, (value.elim (ls = []) fun w => (w = .str "all" ∧ ls = Library.all) ∨
      (w ≠ .str "all" ∧ ∃ named, ListsLibraries w named ∧ Library.FirstsOf named ls)) ∧
        asSet ls = set) ↔
    value.elim (set = []) fun w => (w = .str "all" ∧ set = Library.all) ∨
      (w ≠ .str "all" ∧ ∃ named, ListsLibraries w named ∧ set = asSet named) := by
  have hnone : asSet [] = [] := rfl
  have hall : asSet Library.all = Library.all := rfl
  cases value with
  | none => simp [hnone, eq_comm]
  | some w =>
    dsimp only [Option.elim_some]
    constructor
    · rintro ⟨ls, ⟨hw, rfl⟩ | ⟨hw, named, hlists, hfirsts⟩, rfl⟩
      · exact .inl ⟨hw, hall⟩
      · exact .inr ⟨hw, named, hlists, asSet_congr hfirsts.mem_iff⟩
    · rintro (⟨hw, rfl⟩ | ⟨hw, named, hlists, rfl⟩)
      · exact ⟨_, .inl ⟨hw, rfl⟩, hall⟩
      · have hfirsts := Library.firstsOf_firstOccurrences named
        exact ⟨_, .inr ⟨hw, named, hlists, hfirsts⟩, asSet_congr hfirsts.mem_iff⟩

/-- The settings that are read from an object are those that it describes. -/
theorem ofJson_eq_ok_iff : ofJson base v = .ok s ↔ Describes base v s := by
  have hnodup : Catalog.standardRequest.Nodup := by decide
  have hsome : Catalog.standardRequest ≠ [] := by decide
  simp only [ofJson, except_bind_eq_ok_iff, optionalText_eq_ok_iff, requiredText_eq_ok_iff,
    wholeNumber_eq_ok_iff]
  constructor
  · rintro ⟨llvm, hllvm, sources, ⟨hsources, hsourcesKey⟩, build, ⟨hbuild, hbuildKey⟩, root,
      ⟨hroot, hrootKey⟩, texts, htexts, libraries, hlibraries, workers, hworkers, h⟩
    obtain ⟨clobber, h, hclobber⟩ := clobber_eq_ok_iff.1 h
    simp only [except_bind_eq_ok_iff, truthValue_eq_ok_iff, wholeNumber_eq_ok_iff,
      checked_eq_ok_iff] at h
    obtain ⟨emitWast, hemitWast, prerequisites, hprerequisites, tailBytes, htailBytes, rfl, hpositive,
      htail, hne⟩ := h
    exact {
      sourcesDir := ⟨sources, hsources, hsourcesKey, pathBelow_eq_iff.1 rfl⟩
      buildRoot := ⟨build, hbuild, hbuildKey, pathBelow_eq_iff.1 rfl⟩
      sysrootDir := ⟨root, hroot, hrootKey, pathBelow_eq_iff.1 rfl⟩
      libraries := (exists_libraries_iff hnodup hsome).1 ⟨⟨texts, htexts, hlibraries⟩, hne⟩
      llvmSource := exists_llvmSource_iff.1 ⟨llvm, hllvm, rfl⟩
      workers := (elim_positive_iff le_rfl).1 ⟨hworkers, hpositive⟩
      clobber := exists_clobber_iff.1 ⟨clobber, hclobber, rfl⟩
      emitWast := hemitWast
      includePrerequisites := hprerequisites
      tailBytes := (elim_positive_iff (by decide)).1 ⟨htailBytes, htail⟩ }
  · intro h
    obtain ⟨sources, hsources, hsourcesKey, hsourcesDir⟩ := h.sourcesDir
    obtain ⟨build, hbuild, hbuildKey, hbuildRoot⟩ := h.buildRoot
    obtain ⟨root, hroot, hrootKey, hsysrootDir⟩ := h.sysrootDir
    obtain ⟨⟨texts, htexts, hlibraries⟩, hne⟩ := (exists_libraries_iff hnodup hsome).2 h.libraries
    obtain ⟨llvm, hllvm, hllvmSource⟩ := exists_llvmSource_iff.2 h.llvmSource
    obtain ⟨hworkers, hpositive⟩ := (elim_positive_iff le_rfl).2 h.workers
    obtain ⟨clobber, hclobber, hset⟩ := exists_clobber_iff.2 h.clobber
    obtain ⟨htailBytes, htail⟩ := (elim_positive_iff (by decide)).2 h.tailBytes
    refine ⟨llvm, hllvm, sources, ⟨hsources, hsourcesKey⟩, build, ⟨hbuild, hbuildKey⟩, root,
      ⟨hroot, hrootKey⟩, texts, htexts, s.libraries, hlibraries, s.workers, hworkers,
      clobber_eq_ok_iff.2 ⟨clobber, ?_, hclobber⟩⟩
    simp only [except_bind_eq_ok_iff, truthValue_eq_ok_iff, wholeNumber_eq_ok_iff, checked_eq_ok_iff]
    refine ⟨s.emitWast, h.emitWast, s.includePrerequisites, h.includePrerequisites, s.tailBytes,
      htailBytes, ?_, hpositive, htail, hne⟩
    rw [pathBelow_eq_iff.2 hsourcesDir, pathBelow_eq_iff.2 hbuildRoot, pathBelow_eq_iff.2 hsysrootDir,
      hllvmSource, hset]

/-! ## Which objects are read -/

/-- Whether a report shows a cause as an error in the settings. -/
def OfSettings (cause : Cause) : Prop := cause.diagnostic.category = .configuration

theorem failsBy_checked (s : Settings) : FailsBy OfSettings s.checked := by
  rw [checked]
  split
  · exact failsBy_error rfl
  · split
    · exact failsBy_error rfl
    · split
      · exact failsBy_error rfl
      · exact failsBy_ok _

/-- An object with given libraries and a given number of workers. -/
def payload (libraries workers : Json) : Json := .obj [
  ("libraries", libraries),
  ("workers", workers),
  ("sources_dir", .str "sources"),
  ("build_root", .str "/build"),
  ("sysroot_dir", .str "out"),
  ("clobber", .arr [.str " zlib"])]

/-- The settings of an object that asks for two libraries. -/
def twoLibraries : Settings where
  sourcesDir := ⟨.root, ["base", "sources"]⟩
  buildRoot := ⟨.root, ["build"]⟩
  sysrootDir := ⟨.root, ["base", "out"]⟩
  libraries := [.libcxx, .libc]
  workers := 4
  clobber := [.zlib]

end Sysroot.Settings

import Sysroot.Proofs.Tree.Texts
import Sysroot.Runner.Host

/-!
# Which program is started

A toolchain that could be made has programs that are there (`Toolchain.program_of_make?`).  It remembers
them as paths and they are started by the texts of these paths, from the directory of the invocation.
So a program with an absolute path is the one that was there when the toolchain was made.  The path of
any other is looked up again: from the directory of the invocation if its text has a slash in it, and
otherwise along the search path (`HostRunner.launch_program`).
-/

namespace Sysroot

open Effect Sysroot.Tree

/-! ## The programs of a toolchain that was made -/

namespace Toolchain

variable {tree : Tree} {searchPath text : String} {r : Request} {kind : ToolKind} {p : Path}

theorem spelled_of_resolve (h : resolve tree searchPath text = some p) : Path.Spelled p.parts := by
  rw [resolve] at h
  split at h
  · obtain rfl := Option.some.inj h
    exact Path.spelled_parts text
  · rw [search] at h
    split at h
    · cases h
    · obtain ⟨dir, -, rfl⟩ := List.mem_map.1 (List.mem_of_find?_eq_some h)
      show Path.Spelled (Path.append _ _).parts
      rw [Path.append]
      split
      · exact Path.spelled_parts text
      · exact fun name hname => (List.mem_append.1 hname).elim
          (Path.spelled_parts dir name) (Path.spelled_parts text name)

theorem mem_checkOrder {t : Toolchain} (h : t.program? kind = some p) : kind ∈ checkOrder := by
  cases kind with
  | script => cases h
  | _ => decide

theorem isProgram_of_checkProgram (h : checkProgram tree kind p = .ok ()) :
    tree.isProgram p = true := by
  obtain ⟨there, hquery, h⟩ := except_bind_ok h
  rcases query_ok (mapError_ok hquery) with hp | hp
  · rw [hp]
    cases there with
    | true => rfl
    | false => cases h
  · subst hp
    cases h

/-- A toolchain that was made has what its texts mean, and its programs were checked. -/
theorem make?_ok {c : Toolchain} (hmake : make? tree searchPath r = .ok c) :
    (resolve tree searchPath r.compiler = some c.compiler ∧
      resolve tree searchPath r.linker = some c.linker ∧
      resolve tree searchPath r.archiver = some c.archiver ∧
      c.cxxCompiler = r.cxxCompiler.bind (resolve tree searchPath) ∧
      c.cmake = r.cmake.bind (resolve tree searchPath) ∧
      c.ninja = r.ninja.bind (resolve tree searchPath) ∧
      c.make = r.make.bind (resolve tree searchPath)) ∧
      ∀ kind p, c.program? kind = some p → checkProgram tree kind p = .ok () := by
  have hrequired : ∀ {x : Option Path} {found : Except Fault Path} {p}, (∀ q, x = some q → found = .ok q) →
      (x = none → found.toOption = none) → found = .ok p → x = some p := by
    intro x found p hsome hnone h
    cases x with
    | none => cases (congrArg Except.toOption h).symm.trans (hnone rfl)
    | some q => exact congrArg some (Except.ok.inj ((hsome q rfl).symm.trans h))
  obtain ⟨triple, -, h⟩ := except_bind_ok hmake
  obtain ⟨compiler, hcompiler, h⟩ := except_bind_ok h
  obtain ⟨linker, hlinker, h⟩ := except_bind_ok h
  obtain ⟨archiver, harchiver, h⟩ := except_bind_ok h
  obtain ⟨u, hchecked, h⟩ := except_bind_ok h
  obtain rfl := Except.ok.inj h
  refine ⟨⟨hrequired (fun q hq => by simp only [hq]) (fun hq => by simp only [hq]; rfl) hcompiler,
    hrequired (fun q hq => by simp only [hq]) (fun hq => by simp only [hq]; rfl) hlinker,
    hrequired (fun q hq => by simp only [hq]) (fun hq => by simp only [hq]; rfl) harchiver, rfl, rfl, rfl, rfl⟩,
    fun kind p hp => ?_⟩
  have hyield := (forIn_eq_ok_iff fun kind s hs => ?_).1 hchecked kind (mem_checkOrder hp)
  · rw [hp] at hyield
    exact (except_bind_ok hyield).choose_spec.1
  · split at hs
    · exact (Except.ok.inj (except_bind_ok hs).choose_spec.2).symm
    · exact (Except.ok.inj hs).symm

/-- The programs of a toolchain that was made are files that may be run. -/
theorem program_of_make? {c : Toolchain} (hmake : make? tree searchPath r = .ok c)
    (hp : c.program? kind = some p) : tree.isProgram p = true ∧ Path.Spelled p.parts := by
  obtain ⟨⟨hcompiler, hlinker, harchiver, hcxx, hcmake, hninja, hmake⟩, hchecked⟩ := make?_ok hmake
  refine ⟨isProgram_of_checkProgram (hchecked kind p hp), ?_⟩
  obtain ⟨text, htext⟩ : ∃ text, resolve tree searchPath text = some p := by
    cases kind with
    | cc => exact ⟨_, hcompiler.trans hp⟩
    | ld => exact ⟨_, hlinker.trans hp⟩
    | ar => exact ⟨_, harchiver.trans hp⟩
    | cxx =>
      rcases hgiven : c.cxxCompiler with _ | other
      · rw [program?, hgiven] at hp
        exact ⟨_, hcompiler.trans hp⟩
      · rw [program?, hgiven] at hp
        obtain ⟨text, -, htext⟩ := Option.bind_eq_some_iff.1 (hcxx.symm.trans hgiven)
        exact ⟨text, htext.trans hp⟩
    | cmake => exact (Option.bind_eq_some_iff.1 (hcmake.symm.trans hp)).imp fun _ => And.right
    | ninja => exact (Option.bind_eq_some_iff.1 (hninja.symm.trans hp)).imp fun _ => And.right
    | make => exact (Option.bind_eq_some_iff.1 (hmake.symm.trans hp)).imp fun _ => And.right
    | script => cases hp
  exact spelled_of_resolve htext

end Toolchain

/-! ## Starting a program -/

namespace HostRunner

variable (h : HostRunner)

/-- Runs what is at a place. -/
def runNode (env : OrderedMap String String) (argv : List String) (t : Tree) :
    Option Node → Except Errno Execution
  | none => .error .noEntry
  | some (.file content true) => h.host.program content argv env t
  | some _ => .error .access

/-- Runs what a path leads to. -/
def runPath (env : OrderedMap String String) (argv : List String) (t : Tree) (p : Path) :
    Except Errno Execution := do
  h.runNode env argv t (t.get? (← t.locate p))

/-- What a launch comes to by what running the command does: the working directory is that of before,
and a refusal names the command. -/
def launched (name : String) (home : Location) (x : Except Errno Execution) :
    Except SystemError Execution :=
  (x.mapError fun reason => .refused reason name).map fun x =>
    { x with tree := { x.tree with home := home } }

variable {h} {env overlay : OrderedMap String String} {argv args : List String} {t : Tree} {p cwd : Path}
  {d : Location} {kind : ToolKind}

/-- The places of a name along the search path. -/
def alongSearchPath (env : OrderedMap String String) (name : String) : List String :=
  (Text.split ':' ((env.find? "PATH").getD standardPath)).map fun dir =>
    if dir = "" then name else if dir.endsWith "/" then dir ++ name else dir ++ "/" ++ name

theorem commandLine_eq (hprogram : h.toolchain.program? kind = some p) :
    h.commandLine kind args = .ok (p.text :: args) := by
  have hresult : h.toolchain.program kind = .ok p := by
    rw [Toolchain.program, hprogram]
  cases kind with
  | script => cases hprogram
  | _ =>
    rw [commandLine, hresult]
    · rfl
    · nofun
    · nofun

theorem runAt_text (hp : Path.Spelled p.parts) (hne : p.parts ≠ []) :
    h.runAt env argv t p.text = h.runPath env argv t p := by
  rw [runAt, locateText_text hp hne, runPath]
  rfl

/-- A command that a directory is there for runs in it at the first of its candidates. -/
theorem launch_in (hpass : isPassable argv cwd overlay = true) (hcwd : t.locate cwd = .ok d)
    (hdir : t.get? d = some .dir) :
    h.launch argv cwd overlay t =
      launched (argv.head?.getD "") t.home (h.runFirst (h.host.env.insertAll overlay.pairs) argv
        { t with home := d } .noEntry
        (candidates (h.host.env.insertAll overlay.pairs) (argv.head?.getD ""))) := by
  rw [launch, hpass, hcwd]
  simp only [Bool.not_true, Bool.false_eq_true, if_false, Except.mapError, except_ok_bind, hdir]
  rw [launched]
  cases h.runFirst _ argv _ _ _ with
  | error e => rfl
  | ok x => rfl

theorem runFirst_single {place : String} :
    h.runFirst env argv t .noEntry [place] = h.runAt env argv t place := by
  rw [runFirst]
  split
  · next heq => exact heq.symm
  · next e heq => exact heq.symm

/-- What can be run is a file, and it is not what an empty path leads to. -/
theorem exists_file_of_isProgram (hprogram : t.isProgram p = true) (hhome : t.get? t.home = some .dir) :
    p.parts ≠ [] ∧ ∃ L content, t.locate p = .ok L ∧ t.get? L = some (.file content true) := by
  rw [isProgram, node?] at hprogram
  cases hlocate : t.locate p with
  | error e =>
    rw [hlocate] at hprogram
    cases hprogram
  | ok L =>
    rw [hlocate] at hprogram
    rcases hnode : t.get? L with _ | ⟨content, executable⟩ | _ | _
    all_goals simp only [hnode] at hprogram
    · cases hprogram
    · obtain rfl : executable = true := hprogram
      refine ⟨fun hnil => ?_, L, content, rfl, hnode⟩
      rw [locate, hnil] at hlocate
      split at hlocate
      · cases hlocate
      · obtain rfl : t.startOf p = L := Except.ok.inj hlocate
        have hstart : t.get? (t.startOf p) = some .dir := by
          rw [startOf]
          split
          · rfl
          · exact hhome
        cases hstart.symm.trans hnode
    · cases hprogram
    · cases hprogram

/-- Which program is started: with an absolute path, the file that was found when the toolchain was made,
wherever it is started from; with another path whose text has a slash, what the path leads to from the
directory of the invocation; and otherwise what is found along the search path. -/
theorem launch_program {searchPath : String} {r : Toolchain.Request}
    (hmake : Toolchain.make? t searchPath r = .ok h.toolchain)
    (hprogram : h.toolchain.program? kind = some p) (hhome : t.get? t.home = some .dir)
    (hcwd : t.locate cwd = .ok d) (hdir : t.get? d = some .dir)
    (hpass : isPassable (p.text :: args) cwd overlay = true) :
    ∃ L content, t.locate p = .ok L ∧ t.get? L = some (.file content true) ∧
      h.commandLine kind args = .ok (p.text :: args) ∧
      h.launch (p.text :: args) cwd overlay t = launched p.text t.home
        (let env := h.host.env.insertAll overlay.pairs
        let inside := { t with home := d }
        if p.isAbsolute = true then h.host.program content (p.text :: args) env inside
        else if 2 ≤ p.parts.length then h.runPath env (p.text :: args) inside p
        else h.runFirst env (p.text :: args) inside .noEntry (alongSearchPath env p.text)) := by
  obtain ⟨hfound, hspelled⟩ := Toolchain.program_of_make? hmake hprogram
  obtain ⟨hne, L, content, hL, hfile⟩ := exists_file_of_isProgram hfound hhome
  have hslash := Path.slash_mem_text hspelled
  refine ⟨L, content, hL, hfile, commandLine_eq hprogram, (launch_in hpass hcwd hdir).trans ?_⟩
  show launched p.text t.home _ = _
  congr 1
  show h.runFirst _ _ _ _ (candidates _ p.text) = _
  by_cases habsolute : p.isAbsolute = true
  · rw [if_pos habsolute, candidates, if_pos (hslash.2 (.inl habsolute)), runFirst_single,
      runAt_text hspelled hne, runPath]
    rw [locate_home t d habsolute, hL, except_ok_bind]
    show h.runNode _ _ _ (t.get? L) = _
    rw [hfile, runNode]
  · rw [if_neg habsolute]
    split
    · next htwo =>
      rw [candidates, if_pos (hslash.2 (.inr htwo)), runFirst_single, runAt_text hspelled hne]
    · next hone =>
      rw [candidates, if_neg (mt hslash.1 (not_or.2 ⟨habsolute, hone⟩)), alongSearchPath]

/-- A tree with a compiler below the working directory and another one below a directory of it. -/
def twoCompilers : Tree where
  entries := [(["bin"], .dir), (["bin", "cc"], .file [1] true), (["bin", "ld"], .file [] true),
    (["bin", "ar"], .file [] true), (["sub"], .dir), (["sub", "bin"], .dir),
    (["sub", "bin", "cc"], .file [2] true)]
  nodup := by decide
  root_free := by decide
  housed := by decide
  named := by decide +kernel
  home := []

/-- A host on which a program puts its content out, with the tools of the tree by relative paths. -/
def relativeTools : HostRunner where
  host := { program := fun content _ _ t => .ok { tree := t, stdout := content } }
  toolchain := {
    triple := ⟨"wasm32", "unknown", "unknown", none⟩
    compiler := ⟨.relative, ["bin", "cc"]⟩
    linker := ⟨.relative, ["bin", "ld"]⟩
    archiver := ⟨.relative, ["bin", "ar"]⟩ }

/-- From the other directory it is the other compiler that is started. -/
theorem launch_program_twoCompilers : ∃ L content,
    twoCompilers.locate ⟨.relative, ["bin", "cc"]⟩ = .ok L ∧
      twoCompilers.get? L = some (.file content true) ∧
      (relativeTools.launch ["bin/cc"] ⟨.relative, ["sub"]⟩ .empty twoCompilers).toOption.map
        Execution.stdout = some [2] ∧ content = [1] := by
  have hmake : Toolchain.make? twoCompilers ""
      { compiler := "bin/cc", linker := "bin/ld", archiver := "bin/ar", cmake := none, ninja := none,
        make := none } = .ok relativeTools.toolchain := by
    rfl
  have hkind : relativeTools.toolchain.program? .cc = some ⟨.relative, ["bin", "cc"]⟩ := rfl
  have hcwd : twoCompilers.locate ⟨.relative, ["sub"]⟩ = .ok ["sub"] := by rfl
  have hpass : isPassable [Path.text ⟨.relative, ["bin", "cc"]⟩] ⟨.relative, ["sub"]⟩ .empty = true := by
    decide +kernel
  obtain ⟨L, content, hL, hfile, -, hlaunch⟩ := launch_program hmake hkind rfl hcwd (by decide) hpass
  obtain rfl : L = ["bin", "cc"] := Except.ok.inj (hL.symm.trans (by rfl))
  obtain rfl : content = [1] := by
    cases hfile
    rfl
  have hother := congrArg (fun x => x.toOption.map Execution.stdout) hlaunch
  exact ⟨_, _, hL, hfile, hother, rfl⟩

end HostRunner

end Sysroot

import Sysroot.Tree.Action

/-!
# What is below a directory

`below` goes down from a directory and lists every location in it once, directories before what
they hold.  Links are listed and not followed.  The recursion ends because each directory has
fewer entries below it than the one it is in.

`walk` goes down in the same way, by the paths of what it finds.  It asks what leads to a
directory whether it is a link, which may be refused.
-/

namespace Sysroot.Tree

/-- How many entries are below a location. -/
def countBelow (t : Tree) (l : Location) : Nat :=
  (t.entries.filter fun p => covers l p.1 && p.1 ≠ l).length

/-- A directory has fewer entries below it than the directory it is in. -/
theorem countBelow_lt {t : Tree} {l : Location} {name : String} {n : Node}
    (h : t.get? (l ++ [name]) = some n) : t.countBelow (l ++ [name]) < t.countBelow l := by
  have hmem := (get?_eq_some_iff (by simp : l ++ [name] ≠ [])).1 h
  unfold countBelow
  have hsub : (t.entries.filter fun p => covers (l ++ [name]) p.1 && p.1 ≠ l ++ [name]) =
      (t.entries.filter fun p => covers l p.1 && p.1 ≠ l).filter
        fun p => covers (l ++ [name]) p.1 && p.1 ≠ l ++ [name] := by
    rw [List.filter_filter]
    apply List.filter_congr
    intro p _
    rw [Bool.eq_iff_iff]
    simp only [covers, ne_eq, decide_not, Bool.and_eq_true, decide_eq_true_eq,
      Bool.not_eq_eq_eq_not, Bool.not_true, decide_eq_false_iff_not]
    constructor
    · rintro ⟨hcov, hne⟩
      refine ⟨⟨hcov, hne⟩, (List.prefix_append l [name]).trans hcov, ?_⟩
      rintro heq
      have := (heq ▸ hcov).length_le
      rw [List.length_append, List.length_singleton] at this
      omega
    · rintro ⟨h, -⟩; exact h
  rw [hsub]
  exact List.length_filter_lt_length_iff_exists.2
    ⟨(l ++ [name], n), List.mem_filter.2 ⟨hmem, by simp [covers]⟩, by simp⟩

/-- The locations below a directory, each directory before what it holds. -/
def below (t : Tree) (l : Location) : List Location :=
  (t.children l).flatMap fun name =>
    match _h : t.get? (l ++ [name]) with
    | some .dir => (l ++ [name]) :: below t (l ++ [name])
    | some _ => [l ++ [name]]
    | none => []
termination_by t.countBelow l
decreasing_by exact countBelow_lt _h

/-- The paths below the directory that a path leads to, with their nodes. -/
def under (t : Tree) (p : Path) : List (Path × Node) :=
  match t.locate p with
  | .error _ => []
  | .ok l =>
      (t.below l).filterMap fun m =>
        (t.get? m).map fun n => (⟨p.anchor, p.parts ++ m.drop l.length⟩, n)

/-- The paths of the files and links below the directory that a path leads to.  A link to a
directory is listed as the link it is. -/
def filesUnder (t : Tree) (p : Path) : List Path :=
  (t.under p).filterMap fun (q, n) => if n = .dir then none else some q

/-- The path itself and the directories below it. -/
def dirsUnder (t : Tree) (p : Path) : List Path :=
  p :: (t.under p).filterMap fun (q, n) => if n = .dir then some q else none

/-! ## Walking -/

/-- Whether an entry of a directory leads to a directory: it is one or a link to one. -/
def opensDir (t : Tree) (p : Path) (l : Location) (name : String) : Bool :=
  match t.get? (l ++ [name]) with
  | some .dir => true
  | some (.link _) => t.isDir ⟨p.anchor, p.parts ++ [name]⟩
  | _ => false

/-- The files and links below a location, which a path leads to: first those in it, the links to
directories last, and then what is below its directories.  What leads to a directory is asked
whether it is a link before the walk goes on. -/
def walkFrom (t : Tree) (p : Path) (l : Location) : Except SystemError (List Path) := do
  let next := fun name : String => (⟨p.anchor, p.parts ++ [name]⟩ : Path)
  let dirs := (t.children l).filter (t.opensDir p l)
  let others := (t.children l).filter fun name => !t.opensDir p l name
  let links ← dirs.filterM fun name => t.query (next name) isLink
  let deeper ← (dirs.removeAll links).mapM fun name =>
    match _h : t.get? (l ++ [name]) with
    | some .dir => walkFrom t (next name) (l ++ [name])
    | _ => .ok []
  return (others ++ links).map next ++ deeper.flatten
termination_by t.countBelow l
decreasing_by exact countBelow_lt _h

/-- The files and links below the directory that a path leads to. -/
def walk (t : Tree) (p : Path) : Except SystemError (List Path) :=
  match t.locate p with
  | .error _ => .ok []
  | .ok l => t.walkFrom p l

end Sysroot.Tree

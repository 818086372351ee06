import Mathlib
import Sysroot.Tree.Basic

/-!
# What the operations do to a file tree

`get?` is the view of a tree.  What `set`, `remove` and `move` do is one equation each, and a
tree is made of directories: whatever is somewhere is in a directory (`get?_of_append`), so
that there is nothing below a place that is none (`get?_append_eq_none`).
-/

namespace Sysroot.Tree

variable {t : Tree} {l m r : Location} {n : Node}

/-! ## Where things are -/

@[simp] theorem covers_iff : covers l m = true ↔ l <+: m := by
  rw [covers, decide_eq_true_eq]

theorem covers_eq_false_iff : covers l m = false ↔ ¬ l <+: m := by
  rw [covers, decide_eq_false_iff_not]

/-- What is somewhere is in a directory. -/
theorem get?_dropLast (h : t.get? l = some n) : t.get? l.dropLast = some .dir := by
  by_cases hl : l = []
  · rw [hl]
    exact get?_root t
  · rcases t.housed _ ((get?_eq_some_iff hl).1 h) with hroot | hdir
    · rw [show l.dropLast = [] from hroot]
      exact get?_root t
    · by_cases hroot : l.dropLast = []
      · rw [hroot]
        exact get?_root t
      · exact (get?_eq_some_iff hroot).2 hdir

/-- Everything on the way to a place that is taken is a directory. -/
theorem get?_of_append (h : t.get? (l ++ r) = some n) (hr : r ≠ []) : t.get? l = some .dir := by
  induction r using List.reverseRecOn generalizing n with
  | nil => exact absurd rfl hr
  | append_singleton r name ih =>
    have hparent := get?_dropLast h
    rw [← List.append_assoc, List.dropLast_concat] at hparent
    cases r with
    | nil => rwa [List.append_nil] at hparent
    | cons a r => exact ih hparent (List.cons_ne_nil a r)

theorem get?_of_concat {name : String} (h : t.get? (l ++ (r ++ [name])) = some n) :
    t.get? (l ++ r) = some .dir := by
  rw [← List.append_assoc] at h
  exact get?_of_append h (List.cons_ne_nil name [])

theorem get?_of_above (h : t.get? m = some n) (hlm : l <+: m) (hne : l ≠ m) :
    t.get? l = some .dir := by
  obtain ⟨r, rfl⟩ := hlm
  refine get?_of_append h fun hr => hne ?_
  rw [hr, List.append_nil]

/-- There is nothing below a place that is no directory. -/
theorem get?_append_eq_none (h : t.get? l ≠ some .dir) (hr : r ≠ []) : t.get? (l ++ r) = none := by
  cases hn : t.get? (l ++ r) with
  | none => rfl
  | some n => exact absurd (get?_of_append hn hr) h

theorem get?_concat_eq_none {name : String} (h : t.get? (l ++ r) ≠ some .dir) :
    t.get? (l ++ (r ++ [name])) = none := by
  rw [← List.append_assoc]
  exact get?_append_eq_none h (List.cons_ne_nil name [])

/-- A place is not on the way to the directory that it is in. -/
theorem concat_not_above (l : Location) (name : String) : ¬ l ++ [name] <+: l := by
  intro hpre
  have hlen := hpre.length_le
  rw [List.length_append, List.length_singleton] at hlen
  omega

/-- Everything is under a name. -/
theorem isName_of_get? (h : t.get? l = some n) : ∀ name ∈ l, isName name = true := by
  intro name hname
  have hl : l ≠ [] := List.ne_nil_of_mem hname
  exact t.named _ ((get?_eq_some_iff hl).1 h) name hname

theorem isBare_of_get?_ne_dir (h : t.get? l ≠ some .dir) : t.isBare l = true := by
  rw [isBare, List.all_eq_true]
  intro p hp
  rw [Bool.or_eq_true, decide_eq_true_eq, Bool.not_eq_true']
  by_cases hcov : covers l p.1 = true
  · right
    obtain ⟨r, hr⟩ := covers_iff.1 hcov
    by_contra hne
    have hrne : r ≠ [] := fun h => hne (by rw [← hr, h, List.append_nil])
    have hpne : p.1 ≠ [] := by
      rw [← hr]
      exact List.append_ne_nil_of_right_ne_nil l hrne
    have hget : t.get? p.1 = some p.2 := (get?_eq_some_iff hpne).2 hp
    rw [← hr, get?_append_eq_none h hrne] at hget
    cases hget
  · exact .inl (Bool.not_eq_true _ ▸ hcov)

theorem endsNamed_concat (name : String) : endsNamed (l ++ [name]) = isName name := by
  rw [endsNamed, List.getLast?_concat, Option.any_some]

/-! ## What the operations do -/

@[simp] theorem home_set : (t.set l n).home = t.home := by
  unfold set
  split <;> rfl

@[simp] theorem home_remove : (t.remove l).home = t.home := rfl

@[simp] theorem home_move : (t.move l m).home = t.home := by
  unfold move
  split <;> rfl

/-- A node can be put under a name in a directory where there is nothing or no directory. -/
theorem canSet_of_dir {name : String} (hdir : t.get? l = some .dir) (hname : isName name = true)
    (hfree : n = .dir ∨ t.get? (l ++ [name]) ≠ some .dir) : t.canSet (l ++ [name]) n = true := by
  have hbare : n = .dir ∨ t.isBare (l ++ [name]) = true := hfree.imp_right isBare_of_get?_ne_dir
  simp [canSet, hdir, endsNamed_concat, hname, hbare]

/-- Putting a node changes its location and no other. -/
theorem get?_set (h : t.canSet l n = true) :
    (t.set l n).get? m = if m = l then some n else t.get? m := by
  have hl : l ≠ [] := by
    simp only [canSet, Bool.and_eq_true, decide_eq_true_eq] at h
    exact h.1.1.1
  have hset : t.set l n = t.put l n h := dif_pos h
  have hfind : ∀ es : List (Location × Node), m ≠ l →
      (es.filter (·.1 ≠ l)).find? (fun p => p.1 = m) = es.find? fun p => p.1 = m := by
    intro es hm
    rw [List.find?_filter]
    refine congrArg (fun f => List.find? f es) (funext fun p => ?_)
    by_cases hp : p.1 = m <;> simp [hp, hm]
  rw [hset]
  by_cases hm : m = l
  · rw [if_pos hm, hm]
    exact (get?_eq_some_iff hl).2 List.mem_cons_self
  · rw [if_neg hm]
    by_cases hroot : m = []
    · rw [hroot]
      rfl
    · simp only [get?, if_neg hroot, put]
      rw [List.find?_cons_of_neg (by simpa using Ne.symm hm), hfind _ hm]

/-- Removing takes a location away with everything below it. -/
theorem get?_remove (hl : l ≠ []) :
    (t.remove l).get? m = if l <+: m then none else t.get? m := by
  by_cases hroot : m = []
  · rw [hroot, if_neg (by simpa using hl)]
    rfl
  · simp only [get?, if_neg hroot, remove, List.find?_filter]
    by_cases hcov : l <+: m
    · rw [if_pos hcov, List.find?_eq_none.2, Option.map_none]
      intro p _ hp
      simp only [Bool.not_eq_true', decide_eq_true_eq, covers_eq_false_iff] at hp
      exact hp.1 (hp.2 ▸ hcov)
    · rw [if_neg hcov]
      refine congrArg _ (congrArg (fun f => List.find? f t.entries) (funext fun p => ?_))
      by_cases hp : p.1 = m
      · simp [hp, covers_eq_false_iff.2 hcov]
      · simp [hp]

section Move

variable {source target : Location}

/-- What is listed after a move was listed before, outside the target. -/
theorem mem_entries_bring (h : t.canMove source target = true) :
    (m, n) ∈ (t.bring source target h).entries ↔
      ∃ p, (p, n) ∈ t.entries ∧ ¬ target <+: p ∧ rebase source target p = m := by
  simp only [bring, List.mem_map, List.mem_filter, Prod.mk.injEq, Prod.exists, Bool.not_eq_true',
    covers_eq_false_iff]
  constructor
  · rintro ⟨p, n', ⟨hp, hout⟩, hm, rfl⟩
    exact ⟨p, hp, hout, hm⟩
  · rintro ⟨p, hp, hout, hm⟩
    exact ⟨p, n, ⟨hp, hout⟩, hm, rfl⟩

theorem rebase_append : rebase source target (source ++ r) = target ++ r := by
  rw [rebase_of_covers (covers_iff.2 (List.prefix_append _ _)), List.drop_left]

theorem rebase_of_not_below (h : ¬ source <+: m) : rebase source target m = m :=
  rebase_of_not_covers (covers_eq_false_iff.2 h)

/-- Moving brings what is at a location to another, with everything below it; what was there
is gone. -/
theorem get?_move (h : t.canMove source target = true) :
    (t.move source target).get? m =
      if target <+: m then t.get? (source ++ m.drop target.length)
      else if source <+: m then none else t.get? m := by
  have hmove : t.move source target = t.bring source target h := dif_pos h
  have hcan := h
  simp only [canMove, Bool.and_eq_true, decide_eq_true_eq, Bool.not_eq_true',
    covers_eq_false_iff] at hcan
  obtain ⟨⟨⟨⟨⟨hs, htgt⟩, -⟩, -⟩, hst⟩, hts⟩ := hcan
  rw [hmove]
  by_cases hroot : m = []
  · rw [hroot, if_neg (by simpa using htgt), if_neg (by simpa using hs)]
    rfl
  refine Option.ext fun n => ?_
  rw [get?_eq_some_iff hroot, mem_entries_bring h]
  by_cases htm : target <+: m
  · -- only what was at the source or below it comes here
    rw [if_pos htm]
    obtain ⟨r, rfl⟩ := htm
    rw [List.drop_left, get?_eq_some_iff (List.append_ne_nil_of_left_ne_nil hs r)]
    constructor
    · rintro ⟨p, hp, hout, hm⟩
      by_cases hsp : source <+: p
      · obtain ⟨r', rfl⟩ := hsp
        rw [rebase_append, List.append_cancel_left_eq] at hm
        rw [← hm]
        exact hp
      · rw [rebase_of_not_below hsp] at hm
        exact absurd (hm ▸ List.prefix_append target r) hout
    · intro hp
      refine ⟨source ++ r, hp, fun hpre => ?_, rebase_append⟩
      rcases List.prefix_or_prefix_of_prefix hpre (List.prefix_append source r) with h | h
      · exact hts h
      · exact hst h
  · rw [if_neg htm]
    by_cases hsm : source <+: m
    · rw [if_pos hsm]
      simp only [reduceCtorEq, iff_false]
      rintro ⟨p, -, hout, hm⟩
      by_cases hsp : source <+: p
      · rw [rebase_of_covers (covers_iff.2 hsp)] at hm
        exact htm (hm ▸ List.prefix_append _ _)
      · rw [rebase_of_not_below hsp] at hm
        exact hsp (hm ▸ hsm)
    · rw [if_neg hsm, get?_eq_some_iff hroot]
      constructor
      · rintro ⟨p, hp, -, hm⟩
        by_cases hsp : source <+: p
        · rw [rebase_of_covers (covers_iff.2 hsp)] at hm
          exact absurd (hm ▸ List.prefix_append _ _) htm
        · rw [rebase_of_not_below hsp] at hm
          exact hm ▸ hp
      · intro hp
        exact ⟨m, hp, htm, rebase_of_not_below hsm⟩

/-- A location can be brought under a name in a directory, when neither is below the other. -/
theorem canMove_of_dir {name : String} (hs : source ≠ []) (hdir : t.get? l = some .dir)
    (hname : isName name = true) (hst : ¬ source <+: l ++ [name])
    (hts : ¬ l ++ [name] <+: source) : t.canMove source (l ++ [name]) = true := by
  simp [canMove, hs, hdir, endsNamed_concat, hname, covers_eq_false_iff.2 hst,
    covers_eq_false_iff.2 hts]

end Move

end Sysroot.Tree

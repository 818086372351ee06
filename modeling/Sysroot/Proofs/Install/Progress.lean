import Sysroot.Proofs.Install.Copying

/-!
# How far the copying has come

A run of the copying from a tree has filled some places that were free and some whose content
it brought to the stash.  `Midway` relates the tree it has reached to the one it started from,
place by place: what was brought to the stash is there, and the rest is as it was, with new
directories on the way to the places.  Setting aside, paving and filling each keep this relation,
and what can be undone is read off it.
-/

namespace Sysroot.Install

open Sysroot.Tree

variable {T t t' t₁ : Tree} {root : Path} {R : Location} {k : Nat} {a name : String}
  {x y front : List String} {filled moved : List (List String)}

/-! ## Places and the stash -/

/-- The components of a place that an installation may fill: a name somewhere in a directory
below `include` or `lib`. -/
structure IsPlace (x : List String) : Prop where
  plain : Plain x
  deep : 2 ≤ x.length
  section_ : x.head? = some "include" ∨ x.head? = some "lib"

/-- The components of the directory for what is set aside. -/
def stash (a : String) : List String := [".manifests", a]

theorem IsPlace.ne_nil (h : IsPlace x) : x ≠ [] := by
  rintro rfl
  exact absurd h.deep (by decide)

theorem IsPlace.exists_concat (h : IsPlace x) : ∃ front name, x = front ++ [name] ∧ front ≠ [] := by
  refine ⟨x.dropLast, x.getLast h.ne_nil,
    (List.dropLast_concat_getLast h.ne_nil).symm, fun hnil => ?_⟩
  have hlen := congrArg List.length hnil
  rw [List.length_dropLast, List.length_nil] at hlen
  have hdeep := h.deep
  omega

theorem IsPlace.head?_ne (h : IsPlace x) : x.head? ≠ some ".manifests" := by
  rcases h.section_ with hs | hs
  · rw [hs]
    decide
  · rw [hs]
    decide

/-- No place is on the way to the stash or in it. -/
theorem IsPlace.not_above_stash (h : IsPlace x) : ¬ x <+: stash a ++ y := by
  intro hpre
  obtain ⟨b, rest, rfl⟩ := List.exists_cons_of_ne_nil h.ne_nil
  have hb : b = ".manifests" := (List.cons_prefix_cons.1 hpre).1
  exact h.head?_ne (congrArg some hb)

/-- The stash is not on the way to a place. -/
theorem IsPlace.not_below_stash (h : IsPlace x) : ¬ stash a ++ y <+: x := by
  intro hpre
  obtain ⟨b, rest, rfl⟩ := List.exists_cons_of_ne_nil h.ne_nil
  have hb : ".manifests" = b := (List.cons_prefix_cons.1 hpre).1
  exact h.head?_ne (congrArg some hb.symm)

theorem IsPlace.ne_stash (h : IsPlace x) : stash a ++ y ≠ x := fun heq =>
  h.not_below_stash (a := a) (y := y) (heq ▸ List.prefix_rfl)

/-! ## The relation -/

/-- How the tree `t` that a copying has reached is related to the tree `T` it started from, when
it has filled free places and brought the content of others to the stash. -/
structure Midway (T t : Tree) (root : Path) (R : Location) (a : String)
    (filled moved : List (List String)) : Prop where
  around : SameAround R T t
  /-- Where links can be in the way, the targets of all links fit. -/
  linked : ∀ y target, t.get? (R ++ y) = some (.link target) → T.TargetsFit
  targets : T.TargetsFit → t.TargetsFit
  base : t.get? (R ++ stash a) = some .dir
  places : ∀ x, x ∈ filled ∨ x ∈ moved → IsPlace x ∧ Fits root x
  fits : ∀ s ∈ moved, Fits root (stash a ++ s)
  /-- Nothing that was brought to the stash was below something else that was. -/
  apart : moved.Pairwise fun s s' => ¬ s <+: s' ∧ ¬ s' <+: s
  was : ∀ s ∈ moved, (T.get? (R ++ s)).isSome = true
  free : ∀ c ∈ filled, (∀ s ∈ moved, ¬ s <+: c) → T.get? (R ++ c) = none
  kept : ∀ s ∈ moved, ∀ y, s <+: y → t.get? (R ++ (stash a ++ y)) = T.get? (R ++ y)
  others : ∀ y, y ∉ filled → (∀ s ∈ moved, ¬ s <+: y) → ¬ stash a <+: y →
    t.get? (R ++ y) = T.get? (R ++ y) ∨ (T.get? (R ++ y) = none ∧ t.get? (R ++ y) = some .dir ∧
      ∃ x, (x ∈ filled ∨ x ∈ moved) ∧ y <+: x)

/-- Whether places are taken by files or links. -/
def Taken (t : Tree) (R : Location) (places : List (List String)) : Prop :=
  ∀ x ∈ places, ∃ n, t.get? (R ++ x) = some n ∧ n ≠ .dir

/-- Whether the stash has no more in it than what was brought there. -/
def Stashed (t : Tree) (R : Location) (a : String) (moved : List (List String)) : Prop :=
  ∀ y, (∀ s ∈ moved, ¬ s <+: y) → t.get? (R ++ (stash a ++ y)) ≠ none →
    t.get? (R ++ (stash a ++ y)) = some .dir ∧ (y = [] ∨ ∃ s ∈ moved, y <+: s)

/-- How far a copying has come that can go on: every place so far is taken. -/
structure Progress (T t : Tree) (root : Path) (R : Location) (a : String)
    (filled moved : List (List String)) : Prop extends Midway T t root R a filled moved where
  taken : Taken t R (filled ++ moved)
  stashed : Stashed t R a moved

/-- How far a copying has come that can be undone: each place that was filled can be cleared, if
it can be reached at all, and to each place that was cleared its content can return. -/
structure Recoverable (T t : Tree) (root : Path) (R : Location) (k : Nat) (a : String)
    (filled moved : List (List String)) : Prop extends Midway T t root R a filled moved where
  clear : ∀ c ∈ filled,
    (t.get? (R ++ c.dropLast) = some .dir ∧ t.get? (R ++ c) ≠ some .dir) ∨
      ¬ LeadsToDir t R k c.dropLast
  room : ∀ s ∈ moved, t.get? (R ++ s.dropLast) = some .dir ∧ t.get? (R ++ s) ≠ some .dir

theorem Taken.of_subset {places places' : List (List String)} (h : Taken t R places)
    (hsub : ∀ x ∈ places', x ∈ places) : Taken t R places' :=
  fun x hx => h x (hsub x hx)

/-- A place that is taken by a file or a link is in a directory. -/
theorem Taken.dir {places : List (List String)} (h : Taken t R places) (hx : x ∈ places)
    (hplace : IsPlace x) : t.get? (R ++ x.dropLast) = some .dir ∧ t.get? (R ++ x) ≠ some .dir := by
  obtain ⟨front, name, rfl, -⟩ := hplace.exists_concat
  obtain ⟨n, hn, hne⟩ := h _ hx
  rw [List.dropLast_concat]
  exact ⟨get?_of_concat hn, fun hdir => hne (Option.some.inj (hn.symm.trans hdir))⟩

theorem Midway.askable (h : Midway T t root R a filled moved) : t.Askable R :=
  fun y target hy => h.targets (h.linked y target hy)

/-- A copying that can go on can be undone. -/
theorem Progress.recoverable (h : Progress T t root R a filled moved) :
    Recoverable T t root R k a filled moved where
  toMidway := h.toMidway
  clear := fun c hc =>
    .inl (h.taken.dir (List.mem_append_left _ hc) (h.places c (.inl hc)).1)
  room := fun s hs => h.taken.dir (List.mem_append_right _ hs) (h.places s (.inr hs)).1

/-- A copying starts with an empty stash. -/
theorem midway_start (hask : T.Askable R) (hbase : T.get? (R ++ stash a) = some .dir) :
    Midway T T root R a [] [] where
  around := .refl R T
  linked := hask
  targets := id
  base := hbase
  places := by simp
  fits := by simp
  apart := List.Pairwise.nil
  was := by simp
  free := by simp
  kept := by simp
  others := fun _ _ _ _ => .inl rfl

/-! ## A free place -/

/-- A free place is filled next. -/
theorem Midway.fill (h : Midway T t root R a filled moved) (hx : IsPlace x) (hfits : Fits root x)
    (hnew : x ∉ filled) (hnone : t.get? (R ++ x) = none) :
    Midway T t root R a (filled ++ [x]) moved where
  around := h.around
  linked := h.linked
  targets := h.targets
  base := h.base
  places := by
    rintro p (hp | hp)
    · rcases List.mem_append.1 hp with hp | hp
      · exact h.places p (.inl hp)
      · rw [List.mem_singleton.1 hp]
        exact ⟨hx, hfits⟩
    · exact h.places p (.inr hp)
  fits := h.fits
  apart := h.apart
  was := h.was
  free := by
    intro c hc hs
    rcases List.mem_append.1 hc with hc | hc
    · exact h.free c hc hs
    · rw [List.mem_singleton] at hc
      subst hc
      have hstash : ¬ stash a <+: c := by
        have := hx.not_below_stash (a := a) (y := [])
        rwa [List.append_nil] at this
      rcases h.others c hnew hs hstash with heq | ⟨hT, -⟩
      · rw [← heq, hnone]
      · exact hT
  kept := h.kept
  others := by
    intro y hy hs hstash
    have hy' : y ∉ filled := fun hmem => hy (List.mem_append_left _ hmem)
    rcases h.others y hy' hs hstash with heq | ⟨hT, ht, p, hp, hyp⟩
    · exact .inl heq
    · exact .inr ⟨hT, ht, p, hp.imp_left (List.mem_append_left _), hyp⟩

/-! ## Paving and filling -/

/-- Paving the way to one of the places keeps the relation. -/
theorem Midway.pave (h : Midway T t root R a filled moved) (hR : t.get? R = some .dir)
    (hx : front ++ [name] ∈ filled ∨ front ++ [name] ∈ moved) (hp : Paved R front t t₁) :
    Midway T t₁ root R a filled moved := by
  have hplace := (h.places _ hx).1
  have hstash : ∀ y, t₁.get? (R ++ (stash a ++ y)) = t.get? (R ++ (stash a ++ y)) := fun y => by
    refine hp.get?_of_not_above fun hpre => hplace.not_below_stash (a := a) (y := y) ?_
    exact ((List.prefix_append_right_inj R).1 hpre).trans (List.prefix_append _ _)
  refine ⟨h.around.trans (hp.sameAround hR), ?_, ?_, hp.grown.within _ _ h.base, h.places, h.fits,
    h.apart, h.was, h.free, ?_, ?_⟩
  · exact fun y target hy => h.linked y target (hp.grown.of_ne_dir hy (by simp))
  · exact fun hT l target hl => h.targets hT l target (hp.grown.of_ne_dir hl (by simp))
  · intro s hs y hsy
    rw [hstash]
    exact h.kept s hs y hsy
  · intro y hy hs hstash
    rw [hp.get?]
    split
    · next hpre =>
      have hyx : y <+: front ++ [name] :=
        ((List.prefix_append_right_inj R).1 hpre.2).trans (List.prefix_append _ _)
      rcases hp.free y ((List.prefix_append_right_inj R).1 hpre.2) with hnone | hdir
      · rcases h.others y hy hs hstash with heq | ⟨hT, hdir, -⟩
        · exact .inr ⟨heq ▸ hnone, rfl, _, hx, hyx⟩
        · exact .inr ⟨hT, rfl, _, hx, hyx⟩
      · have hold := h.others y hy hs hstash
        rwa [hdir] at hold
    · exact h.others y hy hs hstash

theorem Taken.pave {places : List (List String)} (h : Taken t R places) (hp : Paved R front t t₁) :
    Taken t₁ R places := by
  intro p hmem
  obtain ⟨n, hn, hne⟩ := h p hmem
  exact ⟨n, hp.grown.within _ _ hn, hne⟩

theorem Stashed.pave (h : Stashed t R a moved) (hplace : IsPlace (front ++ [name]))
    (hp : Paved R front t t₁) : Stashed t₁ R a moved := by
  intro y hs
  rw [hp.get?_of_not_above]
  · exact h y hs
  · intro hpre
    refine hplace.not_below_stash (a := a) (y := y) ?_
    exact ((List.prefix_append_right_inj R).1 hpre).trans (List.prefix_append _ _)

/-- Filling one of the places keeps the relation. -/
theorem Midway.add (h : Midway T t root R a filled moved) {n : Node}
    (hx : x ∈ filled ∨ x ∈ moved) (hadd : Added (R ++ x) n t t')
    (hn : ∀ target, n = .link target → T.TargetsFit ∧ ∃ l, t.get? l = some (.link target)) :
    Midway T t' root R a filled moved := by
  have hplace := (h.places _ hx).1
  have hstash : ∀ y, t'.get? (R ++ (stash a ++ y)) = t.get? (R ++ (stash a ++ y)) := fun y => by
    rw [hadd.get?, if_neg fun heq => hplace.ne_stash (List.append_cancel_left heq)]
  refine ⟨h.around.trans (hadd.sameAround hplace.ne_nil), ?_, ?_, ?_, h.places, h.fits, h.apart,
    h.was, h.free, ?_, ?_⟩
  · intro y target hy
    rw [hadd.get?] at hy
    split at hy
    · exact (hn target (Option.some.inj hy)).1
    · exact h.linked y target hy
  · intro hT l target hl
    rw [hadd.get?] at hl
    split at hl
    · obtain ⟨-, l', hl'⟩ := hn target (Option.some.inj hl)
      exact h.targets hT l' target hl'
    · exact h.targets hT l target hl
  · have hbase := hstash []
    rw [List.append_nil] at hbase
    rw [hbase]
    exact h.base
  · intro s hs y hsy
    rw [hstash]
    exact h.kept s hs y hsy
  · intro y hy hs hnot
    have hyx : y ≠ x := by
      rintro rfl
      exact hx.elim hy fun hmem => hs y hmem List.prefix_rfl
    rw [hadd.get?, if_neg fun heq => hyx (List.append_cancel_left heq)]
    exact h.others y hy hs hnot

theorem Taken.add {places : List (List String)} {n : Node} (h : Taken t R places) (hne : n ≠ .dir)
    (hadd : Added (R ++ x) n t t') : Taken t' R (places ++ [x]) := by
  intro p hmem
  rw [hadd.get?]
  by_cases hpx : p = x
  · rw [if_pos (congrArg _ hpx)]
    exact ⟨n, rfl, hne⟩
  · rw [if_neg fun heq => hpx (List.append_cancel_left heq)]
    rcases List.mem_append.1 hmem with hmem | hmem
    · exact h p hmem
    · exact absurd (List.mem_singleton.1 hmem) hpx

theorem Stashed.add {n : Node} (h : Stashed t R a moved) (hplace : IsPlace x)
    (hadd : Added (R ++ x) n t t') : Stashed t' R a moved := by
  intro y hs
  rw [hadd.get?, if_neg fun heq => hplace.ne_stash (List.append_cancel_left heq)]
  exact h y hs

/-! ## Setting aside -/

theorem IsPlace.not_both (h : IsPlace x) (hxy : x <+: y) : ¬ stash a <+: y := by
  intro hstash
  rcases List.prefix_or_prefix_of_prefix hxy hstash with hpre | hpre
  · exact h.not_above_stash (hpre.trans (List.prefix_append (stash a) []))
  · refine h.not_below_stash (a := a) (y := []) ?_
    rwa [List.append_nil]

/-- Paving the way to where something will be kept changes nothing outside the stash. -/
theorem get?_pave_stash (hbase : t.get? (R ++ stash a) = some .dir)
    (hp : Paved R (stash a ++ front) t t₁) (hy : ¬ stash a <+: y) :
    t₁.get? (R ++ y) = t.get? (R ++ y) := by
  by_cases hpre : R ++ y <+: R ++ (stash a ++ front)
  · have hway : y <+: stash a ++ front := (List.prefix_append_right_inj R).1 hpre
    have hys : y <+: stash a :=
      (List.prefix_or_prefix_of_prefix hway (List.prefix_append _ _)).resolve_right hy
    have hne : y ≠ stash a := fun heq => hy (heq ▸ List.prefix_rfl)
    have hdir : t.get? (R ++ y) = some .dir :=
      get?_of_above hbase ((List.prefix_append_right_inj R).2 hys)
        fun heq => hne (List.append_cancel_left heq)
    rw [hp.get?, if_pos ⟨List.prefix_append R y, hpre⟩, hdir]
  · exact hp.get?_of_not_above hpre

/-- Paving the way to where something will be kept keeps the relation. -/
theorem Midway.paveStash (h : Midway T t root R a filled moved) (hR : t.get? R = some .dir)
    (hfront : ∀ s ∈ moved, ¬ s <+: front) (hp : Paved R (stash a ++ front) t t₁) :
    Midway T t₁ root R a filled moved := by
  refine ⟨h.around.trans (hp.sameAround hR), ?_, ?_, hp.grown.within _ _ h.base, h.places, h.fits,
    h.apart, h.was, h.free, ?_, ?_⟩
  · exact fun y target hy => h.linked y target (hp.grown.of_ne_dir hy (by simp))
  · exact fun hT l target hl => h.targets hT l target (hp.grown.of_ne_dir hl (by simp))
  · intro s hs y hsy
    rw [hp.get?_of_not_above, h.kept s hs y hsy]
    intro hpre
    have hyfront : y <+: front :=
      (List.prefix_append_right_inj _).1 ((List.prefix_append_right_inj R).1 hpre)
    exact hfront s hs (hsy.trans hyfront)
  · intro y hy hs hstash
    rw [get?_pave_stash h.base hp hstash]
    exact h.others y hy hs hstash

section Aside

variable (hcan : t.canMove (R ++ x) (R ++ (stash a ++ x)) = true)

include hcan

/-- In the stash there is what was at the place, at the same way below it. -/
theorem get?_aside_stash (hx : IsPlace x) :
    (t.move (R ++ x) (R ++ (stash a ++ x))).get? (R ++ (stash a ++ y)) =
      if x <+: y then t.get? (R ++ y) else t.get? (R ++ (stash a ++ y)) := by
  rw [get?_move hcan]
  by_cases hxy : x <+: y
  · have hpre : R ++ (stash a ++ x) <+: R ++ (stash a ++ y) :=
      (List.prefix_append_right_inj R).2 ((List.prefix_append_right_inj _).2 hxy)
    obtain ⟨r, rfl⟩ := hxy
    have hdrop : (R ++ (stash a ++ (x ++ r))).drop (R ++ (stash a ++ x)).length = r := by
      rw [show R ++ (stash a ++ (x ++ r)) = R ++ (stash a ++ x) ++ r by simp, List.drop_left]
    rw [if_pos hpre, if_pos (List.prefix_append x r), hdrop, List.append_assoc]
  · have hpre : ¬ R ++ (stash a ++ x) <+: R ++ (stash a ++ y) := fun hno =>
      hxy ((List.prefix_append_right_inj _).1 ((List.prefix_append_right_inj R).1 hno))
    have hpre' : ¬ R ++ x <+: R ++ (stash a ++ y) := fun hno =>
      hx.not_above_stash ((List.prefix_append_right_inj R).1 hno)
    rw [if_neg hpre, if_neg hpre', if_neg hxy]

/-- Outside the stash only the place is cleared. -/
theorem get?_aside_other (hy : ¬ stash a <+: y) :
    (t.move (R ++ x) (R ++ (stash a ++ x))).get? (R ++ y) =
      if x <+: y then none else t.get? (R ++ y) := by
  have hpre : ¬ R ++ (stash a ++ x) <+: R ++ y := fun hno =>
    hy ((List.prefix_append _ _).trans ((List.prefix_append_right_inj R).1 hno))
  rw [get?_move hcan, if_neg hpre]
  by_cases hxy : x <+: y
  · rw [if_pos hxy, if_pos ((List.prefix_append_right_inj R).2 hxy)]
  · rw [if_neg hxy, if_neg fun hno => hxy ((List.prefix_append_right_inj R).1 hno)]

theorem sameAround_aside (hx : IsPlace x) :
    SameAround R t (t.move (R ++ x) (R ++ (stash a ++ x))) := by
  refine ⟨home_move, fun l hl => ?_⟩
  have hne : ∀ z, z ≠ [] → ¬ R ++ z <+: l := by
    intro z hz hpre
    have heq := hl ((List.prefix_append R z).trans hpre)
    rw [heq] at hpre
    have hlen := hpre.length_le
    rw [List.length_append] at hlen
    have := List.length_pos_iff.2 hz
    omega
  rw [get?_move hcan, if_neg (hne _ (List.append_ne_nil_of_right_ne_nil _ hx.ne_nil)),
    if_neg (hne _ hx.ne_nil)]

theorem exists_of_get?_aside {l : Location} {n : Node}
    (h : (t.move (R ++ x) (R ++ (stash a ++ x))).get? l = some n) :
    ∃ l', t.get? l' = some n := by
  rw [get?_move hcan] at h
  split at h
  · exact ⟨_, h⟩
  · split at h
    · cases h
    · exact ⟨_, h⟩

theorem exists_below_of_get?_aside {n : Node}
    (h : (t.move (R ++ x) (R ++ (stash a ++ x))).get? (R ++ y) = some n) :
    ∃ y', t.get? (R ++ y') = some n := by
  rw [get?_move hcan, List.append_assoc R x] at h
  split at h
  · exact ⟨_, h⟩
  · split at h
    · cases h
    · exact ⟨y, h⟩

end Aside

/-- What is taken at a place that comes later in the order was there from the start. -/
theorem Midway.get?_of_later (h : Midway T t root R a filled moved)
    (htaken : Taken t R (filled ++ moved)) (hx : IsPlace x)
    (hlater : ∀ p, p ∈ filled ∨ p ∈ moved → ¬ x <+: p) (hsome : (t.get? (R ++ x)).isSome = true)
    (hxy : x <+: y) : t.get? (R ++ y) = T.get? (R ++ y) := by
  have hy : y ∉ filled := fun hmem => hlater y (.inl hmem) hxy
  have hs : ∀ s ∈ moved, ¬ s <+: y := by
    intro s hs hsy
    rcases List.prefix_or_prefix_of_prefix hxy hsy with hpre | hpre
    · exact hlater s (.inr hs) hpre
    · obtain ⟨n, hn, hne⟩ := htaken s (List.mem_append_right _ hs)
      by_cases heq : s = x
      · exact hlater s (.inr hs) (heq ▸ List.prefix_rfl)
      · obtain ⟨m, hm⟩ := Option.isSome_iff_exists.1 hsome
        have hdir := get?_of_above hm ((List.prefix_append_right_inj R).2 hpre)
          fun hno => heq (List.append_cancel_left hno)
        rw [hn] at hdir
        exact hne (Option.some.inj hdir)
  rcases h.others y hy hs (hx.not_both hxy) with heq | ⟨-, -, p, hp, hyp⟩
  · exact heq
  · exact absurd (hxy.trans hyp) (hlater p hp)

/-- What is taken by a file or a link is not on the way to something. -/
theorem Taken.not_above {places : List (List String)} (h : Taken t R places)
    (hsome : (t.get? (R ++ (front ++ [name]))).isSome = true) {s : List String}
    (hs : s ∈ places) : ¬ s <+: front := by
  intro hpre
  obtain ⟨n, hn, hne⟩ := h s hs
  obtain ⟨m, hm⟩ := Option.isSome_iff_exists.1 hsome
  have hdir : t.get? (R ++ front) = some .dir := get?_of_concat hm
  by_cases heq : s = front
  · rw [← heq, hn] at hdir
    exact hne (Option.some.inj hdir)
  · have hdir' := get?_of_above hdir ((List.prefix_append_right_inj R).2 hpre)
      fun hno => heq (List.append_cancel_left hno)
    rw [hn] at hdir'
    exact hne (Option.some.inj hdir')

/-- Setting aside what is at the next place keeps the relation. -/
theorem Midway.aside (h : Midway T t root R a filled moved) (hR : t.get? R = some .dir)
    (htaken : Taken t R (filled ++ moved)) (hx : IsPlace (front ++ [name]))
    (hfits : Fits root (front ++ [name])) (hfits' : Fits root (stash a ++ (front ++ [name])))
    (hlater : ∀ p, p ∈ filled ∨ p ∈ moved → ¬ front ++ [name] <+: p)
    (hsome : (t.get? (R ++ (front ++ [name]))).isSome = true)
    (hp : Paved R (stash a ++ front) t t₁)
    (hcan : t₁.canMove (R ++ (front ++ [name])) (R ++ (stash a ++ (front ++ [name]))) = true) :
    Midway T (t₁.move (R ++ (front ++ [name])) (R ++ (stash a ++ (front ++ [name])))) root R a
      filled (moved ++ [front ++ [name]]) := by
  have hfront : ∀ s ∈ moved, ¬ s <+: front := fun s hs =>
    htaken.not_above hsome (List.mem_append_right _ hs)
  have h₁ := h.paveStash hR hfront hp
  have hfar : ¬ front ++ [name] <+: stash a := fun hpre =>
    hx.not_above_stash (hpre.trans (List.prefix_append (stash a) []))
  -- what comes later in the order lies apart from what was set aside before
  have hapart : ∀ s ∈ moved, ¬ s <+: front ++ [name] ∧ ¬ front ++ [name] <+: s := by
    intro s hs
    refine ⟨fun hpre => ?_, hlater s (.inr hs)⟩
    rcases List.prefix_concat_iff.1 hpre with heq | hpre
    · exact hlater s (.inr hs) (heq ▸ List.prefix_rfl)
    · exact hfront s hs hpre
  have hold : ∀ y, front ++ [name] <+: y → t.get? (R ++ y) = T.get? (R ++ y) := fun y hxy =>
    h.get?_of_later htaken hx hlater hsome hxy
  refine ⟨h₁.around.trans (sameAround_aside hcan hx), ?_, ?_, ?_, ?_, ?_, ?_, ?_, ?_, ?_, ?_⟩
  · intro y target hy
    obtain ⟨y', hy'⟩ := exists_below_of_get?_aside hcan hy
    exact h₁.linked y' target hy'
  · intro hT l target hl
    obtain ⟨l', hl'⟩ := exists_of_get?_aside hcan hl
    exact h₁.targets hT l' target hl'
  · have hstash := get?_aside_stash (y := []) hcan hx
    rw [List.append_nil, if_neg (by simp)] at hstash
    rw [hstash]
    exact h₁.base
  · rintro p (hmem | hmem)
    · exact h.places p (.inl hmem)
    · rcases List.mem_append.1 hmem with hmem | hmem
      · exact h.places p (.inr hmem)
      · rw [List.mem_singleton.1 hmem]
        exact ⟨hx, hfits⟩
  · intro s hs
    rcases List.mem_append.1 hs with hs | hs
    · exact h.fits s hs
    · rw [List.mem_singleton.1 hs]
      exact hfits'
  · refine List.pairwise_append.2 ⟨h.apart, List.pairwise_singleton _ _, fun s hs s' hs' => ?_⟩
    rw [List.mem_singleton.1 hs']
    exact hapart s hs
  · intro s hs
    rcases List.mem_append.1 hs with hs | hs
    · exact h.was s hs
    · rw [List.mem_singleton.1 hs, ← hold _ List.prefix_rfl]
      exact hsome
  · intro c hc hs
    exact h.free c hc fun s hmem => hs s (List.mem_append_left _ hmem)
  · intro s hs y hsy
    rw [get?_aside_stash hcan hx]
    rcases List.mem_append.1 hs with hs | hs
    · have hxy : ¬ front ++ [name] <+: y := by
        intro hxy
        rcases List.prefix_or_prefix_of_prefix hsy hxy with hpre | hpre
        · exact (hapart s hs).1 hpre
        · exact (hapart s hs).2 hpre
      rw [if_neg hxy]
      exact h₁.kept s hs y hsy
    · rw [List.mem_singleton] at hs
      rw [hs] at hsy
      rw [if_pos hsy, get?_pave_stash h.base hp (hx.not_both hsy)]
      exact hold y hsy
  · intro y hy hs hstash
    have hxy : ¬ front ++ [name] <+: y := hs _ (List.mem_append_right _ List.mem_cons_self)
    rw [get?_aside_other hcan hstash, if_neg hxy]
    rcases h₁.others y hy (fun s hmem => hs s (List.mem_append_left _ hmem)) hstash with
      heq | ⟨hT, hdir, p, hmem, hyp⟩
    · exact .inl heq
    · exact .inr ⟨hT, hdir, p, hmem.imp_right (List.mem_append_left _), hyp⟩

theorem Taken.aside {places : List (List String)} (h : Taken t R places)
    (hbase : t.get? (R ++ stash a) = some .dir) (hplaces : ∀ p ∈ places, IsPlace p)
    (hlater : ∀ p ∈ places, ¬ front ++ [name] <+: p) (hp : Paved R (stash a ++ front) t t₁)
    (hcan : t₁.canMove (R ++ (front ++ [name])) (R ++ (stash a ++ (front ++ [name]))) = true) :
    Taken (t₁.move (R ++ (front ++ [name])) (R ++ (stash a ++ (front ++ [name])))) R places := by
  intro p hmem
  have hstash : ¬ stash a <+: p := (hplaces p hmem).not_both List.prefix_rfl
  rw [get?_aside_other hcan hstash, if_neg (hlater p hmem), get?_pave_stash hbase hp hstash]
  exact h p hmem

theorem Stashed.aside (h : Stashed t R a moved) (hx : IsPlace (front ++ [name]))
    (hp : Paved R (stash a ++ front) t t₁)
    (hcan : t₁.canMove (R ++ (front ++ [name])) (R ++ (stash a ++ (front ++ [name]))) = true) :
    Stashed (t₁.move (R ++ (front ++ [name])) (R ++ (stash a ++ (front ++ [name])))) R a
      (moved ++ [front ++ [name]]) := by
  intro y hs
  have hxy : ¬ front ++ [name] <+: y := hs _ (List.mem_append_right _ List.mem_cons_self)
  have hs' : ∀ s ∈ moved, ¬ s <+: y := fun s hmem => hs s (List.mem_append_left _ hmem)
  rw [get?_aside_stash hcan hx, if_neg hxy, hp.get?]
  split
  · next hpre =>
    intro _
    have hyfront : y <+: front :=
      (List.prefix_append_right_inj _).1 ((List.prefix_append_right_inj R).1 hpre.2)
    exact ⟨rfl, .inr ⟨_, List.mem_append_right _ List.mem_cons_self,
      hyfront.trans (List.prefix_append _ _)⟩⟩
  · intro hne
    obtain ⟨hdir, hway⟩ := h y hs' hne
    exact ⟨hdir, hway.imp_right fun ⟨s, hmem, hys⟩ => ⟨s, List.mem_append_left _ hmem, hys⟩⟩

end Sysroot.Install

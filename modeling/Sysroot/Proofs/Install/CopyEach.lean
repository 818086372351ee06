import Sysroot.Proofs.Install.Progress

/-!
# Copying a whole mapping

A copying goes through its sources in the order of their places, so that no place comes after
one that is below it.  Each step keeps `Progress` or fails in a tree from which everything can be
undone (`step`); so a copying either fills every place or fails in such a tree
(`copyEach_spec`).
-/

namespace Sysroot.Install

open Sysroot.Tree

variable {T t t' t₁ : Tree} {root : Path} {R : Location} {k : Nat} {a name : String}
  {x front : List String} {filled moved : List (List String)} {item : String × Path}
  {rest items : List (String × Path)}

/-- Whether an entry of a mapping gives a source to a place. -/
structure IsEntry (item : String × Path) (x : List String) : Prop where
  key : item.1 = (Path.ofNames x).text
  place : IsPlace x
  source : hasNull item.2.text = false

/-- The record of the places that were filled and of those whose content was set aside. -/
def undoOf (root : Path) (a : String) (filled moved : List (List String)) : Undo where
  created := filled.map root.within
  saved := moved.map fun s => (root.within s, root.within (stash a ++ s))

theorem undoOf_record_none :
    (undoOf root a filled moved).record (root.within x) none =
      undoOf root a (filled ++ [x]) moved := by
  simp [undoOf, Undo.record]

theorem undoOf_record_some :
    (undoOf root a filled moved).record (root.within x) (some (root.within (stash a ++ x))) =
      undoOf root a filled (moved ++ [x]) := by
  simp [undoOf, Undo.record]

section

attribute [local irreducible] setAside copyTo

theorem copyEach_cons_apply (root aside source : Path) (relative : String) (t : Tree) (u : Undo) :
    copyEach root aside ((relative, source) :: rest) u t =
      match setAside (root / relative) (aside / relative) t with
      | (.error fault, t) => (.error fault, u, t)
      | (.ok kept, t) => match copyTo source (root / relative) t with
        | (.error fault, t) => (.error fault, u.record (root / relative) kept, t)
        | (.ok (), t) => copyEach root aside rest (u.record (root / relative) kept) t :=
  rfl

end

theorem copyEach_cons (h : IsEntry item x) (t : Tree) (u : Undo) :
    copyEach root (root.within (stash a)) (item :: rest) u t =
      match setAside (root.within x) (root.within (stash a ++ x)) t with
      | (.error fault, t) => (.error fault, u, t)
      | (.ok kept, t) => match copyTo item.2 (root.within x) t with
        | (.error fault, t) => (.error fault, u.record (root.within x) kept, t)
        | (.ok (), t) =>
            copyEach root (root.within (stash a)) rest (u.record (root.within x) kept) t := by
  obtain ⟨relative, source⟩ := item
  have hplace : root / relative = root.within x := by
    rw [show relative = _ from h.key, Path.div_text_ofNames h.place.plain]
  have hkept : root.within (stash a) / relative = root.within (stash a ++ x) := by
    rw [show relative = _ from h.key, Path.div_text_ofNames h.place.plain, Path.within_within]
  rw [copyEach_cons_apply, hplace, hkept]

/-! ## One step -/

/-- The way to where the content of a place will be kept is free when there is some. -/
theorem Progress.ready (h : Progress T t root R a filled moved)
    (hx : IsPlace (front ++ [name]))
    (hlater : ∀ p, p ∈ filled ∨ p ∈ moved → ¬ front ++ [name] <+: p)
    (hsome : (t.get? (R ++ (front ++ [name]))).isSome = true) :
    Straight t R k (stash a ++ front) ∧ t.get? (R ++ (stash a ++ (front ++ [name]))) = none := by
  have hfront : ∀ s ∈ moved, ¬ s <+: front := fun s hs =>
    h.taken.not_above hsome (List.mem_append_right _ hs)
  refine ⟨straight_of_no_link fun f target hf hlink => ?_, ?_⟩
  · by_cases hstash : stash a <+: f
    · obtain ⟨g, rfl⟩ := hstash
      have hg : g <+: front := (List.prefix_append_right_inj _).1 hf
      obtain ⟨hdir, -⟩ := h.stashed g (fun s hs hsg => hfront s hs (hsg.trans hg))
        (by rw [hlink]; exact nofun)
      rw [hlink] at hdir
      cases hdir
    · have hfs : f <+: stash a :=
        (List.prefix_or_prefix_of_prefix hf (List.prefix_append _ _)).resolve_right hstash
      have hne : f ≠ stash a := fun heq => hstash (heq ▸ List.prefix_rfl)
      have hdir := get?_of_above h.base ((List.prefix_append_right_inj R).2 hfs)
        fun heq => hne (List.append_cancel_left heq)
      rw [hlink] at hdir
      cases hdir
  · by_contra hne
    have hmoved : ∀ s ∈ moved, ¬ s <+: front ++ [name] := by
      intro s hs hpre
      rcases List.prefix_concat_iff.1 hpre with heq | hpre
      · exact hlater s (.inr hs) (heq ▸ List.prefix_rfl)
      · exact hfront s hs hpre
    rcases (h.stashed _ hmoved hne).2 with hnil | ⟨s, hs, hpre⟩
    · exact hx.ne_nil hnil
    · exact hlater s (.inr hs) hpre

theorem canMove_aside (hx : IsPlace (front ++ [name])) (hR : R ++ (front ++ [name]) ≠ [])
    (hp : Paved R (stash a ++ front) t t₁) :
    t₁.canMove (R ++ (front ++ [name])) (R ++ (stash a ++ (front ++ [name]))) = true := by
  have hassoc : R ++ (stash a ++ (front ++ [name])) = R ++ (stash a ++ front) ++ [name] := by simp
  have hname := (plain_append.1 hx.plain).2 name List.mem_cons_self
  have hbelow : ¬ R ++ (front ++ [name]) <+: R ++ (stash a ++ (front ++ [name])) := fun hpre =>
    hx.not_above_stash ((List.prefix_append_right_inj R).1 hpre)
  have habove : ¬ R ++ (stash a ++ (front ++ [name])) <+: R ++ (front ++ [name]) := fun hpre =>
    hx.not_below_stash ((List.prefix_append_right_inj R).1 hpre)
  rw [hassoc] at hbelow habove ⊢
  exact canMove_of_dir hR hp.dir hname hbelow habove

/-- A copying that has failed at a free place can be undone. -/
theorem Progress.fail_fill (h : Progress T t root R a filled moved) (hR : t.get? R = some .dir)
    (hx : IsPlace (front ++ [name])) (hfits : Fits root (front ++ [name]))
    (hlater : ∀ p, p ∈ filled ∨ p ∈ moved → ¬ front ++ [name] <+: p)
    (hstraight : Straight t R k front) (hnone : t.get? (R ++ (front ++ [name])) = none)
    (ht' : t' = t ∨ Paved R front t t') :
    Recoverable T t' root R k a (filled ++ [front ++ [name]]) moved := by
  have hnew : front ++ [name] ∉ filled := fun hmem => hlater _ (.inl hmem) List.prefix_rfl
  have hmid := h.toMidway.fill hx hfits hnew hnone
  have hmem : front ++ [name] ∈ filled ++ [front ++ [name]] :=
    List.mem_append_right _ List.mem_cons_self
  rcases ht' with rfl | hp
  · refine ⟨hmid, fun c hc => ?_, fun s hs =>
      h.taken.dir (List.mem_append_right _ hs) (h.places s (.inr hs)).1⟩
    rcases List.mem_append.1 hc with hc | hc
    · exact .inl (h.taken.dir (List.mem_append_left _ hc) (h.places c (.inl hc)).1)
    · rw [List.mem_singleton.1 hc, List.dropLast_concat, hnone]
      by_cases hdir : t'.get? (R ++ front) = some .dir
      · exact .inl ⟨hdir, nofun⟩
      · exact .inr fun hleads =>
          hdir (get?_of_straight hR (plain_append.1 hx.plain).1 hstraight hleads)
  · have htaken := h.taken.pave hp
    refine ⟨hmid.pave hR (.inl hmem) hp, fun c hc => .inl ?_, fun s hs =>
      htaken.dir (List.mem_append_right _ hs) (h.places s (.inr hs)).1⟩
    rcases List.mem_append.1 hc with hc | hc
    · exact htaken.dir (List.mem_append_left _ hc) (h.places c (.inl hc)).1
    · have hnone' : t'.get? (R ++ (front ++ [name])) = none := by
        rw [hp.get?_of_not_above, hnone]
        rw [← List.append_assoc]
        exact concat_not_above _ _
      rw [List.mem_singleton.1 hc, List.dropLast_concat, hnone']
      exact ⟨hp.dir, nofun⟩

/-- A free place that was filled is taken. -/
theorem Progress.fill (h : Progress T t root R a filled moved) (hR : t.get? R = some .dir)
    (hx : IsPlace (front ++ [name])) (hfits : Fits root (front ++ [name]))
    (hlater : ∀ p, p ∈ filled ∨ p ∈ moved → ¬ front ++ [name] <+: p)
    (hnone : t.get? (R ++ (front ++ [name])) = none) (hp : Paved R front t t₁) {n : Node}
    (hadd : Added (R ++ (front ++ [name])) n t₁ t') (hne : n ≠ .dir)
    (hn : ∀ target, n = .link target → T.TargetsFit ∧ ∃ l, t₁.get? l = some (.link target)) :
    Progress T t' root R a (filled ++ [front ++ [name]]) moved := by
  have hnew : front ++ [name] ∉ filled := fun hmem => hlater _ (.inl hmem) List.prefix_rfl
  have hmem : front ++ [name] ∈ filled ++ [front ++ [name]] :=
    List.mem_append_right _ List.mem_cons_self
  have hmid :=
    ((h.toMidway.fill hx hfits hnew hnone).pave hR (.inl hmem) hp).add (.inl hmem) hadd hn
  refine ⟨hmid, ((h.taken.pave hp).add hne hadd).of_subset ?_, (h.stashed.pave hx hp).add hx hadd⟩
  intro p hp
  simp only [List.mem_append] at hp ⊢
  tauto

section Aside

variable (h : Progress T t root R a filled moved) (hR : t.get? R = some .dir)
  (hx : IsPlace (front ++ [name])) (hfits : Fits root (front ++ [name]))
  (hfits' : Fits root (stash a ++ (front ++ [name])))
  (hlater : ∀ p, p ∈ filled ∨ p ∈ moved → ¬ front ++ [name] <+: p)
  (hsome : (t.get? (R ++ (front ++ [name]))).isSome = true)
  (hp : Paved R (stash a ++ front) t t₁)
  (hcan : t₁.canMove (R ++ (front ++ [name])) (R ++ (stash a ++ (front ++ [name]))) = true)

include h hx hlater hsome hp hcan

/-- Setting aside leaves a free place in a directory. -/
theorem Progress.aside_free :
    (t₁.move (R ++ (front ++ [name])) (R ++ (stash a ++ (front ++ [name])))).get? (R ++ front) =
      some .dir ∧
    (t₁.move (R ++ (front ++ [name])) (R ++ (stash a ++ (front ++ [name])))).get?
      (R ++ (front ++ [name])) = none ∧
    Taken (t₁.move (R ++ (front ++ [name])) (R ++ (stash a ++ (front ++ [name])))) R
      (filled ++ moved) := by
  have hfar : ¬ stash a <+: front := fun hpre =>
    hx.not_both List.prefix_rfl (hpre.trans (List.prefix_append _ _))
  obtain ⟨m, hm⟩ := Option.isSome_iff_exists.1 hsome
  refine ⟨?_, ?_, ?_⟩
  · rw [get?_aside_other hcan hfar, if_neg (concat_not_above front name),
      get?_pave_stash h.base hp hfar]
    exact get?_of_concat hm
  · rw [get?_aside_other hcan (hx.not_both List.prefix_rfl), if_pos List.prefix_rfl]
  · refine h.taken.aside h.base (fun p hmem => ?_) (fun p hmem => ?_) hp hcan
    · exact (h.places p (List.mem_append.1 hmem)).1
    · exact hlater p (List.mem_append.1 hmem)

include hR hfits hfits'

/-- A copying that has failed at a place whose content was set aside can be undone. -/
theorem Progress.fail_aside
    (ht' : t' = t₁.move (R ++ (front ++ [name])) (R ++ (stash a ++ (front ++ [name]))) ∨
      Paved R front (t₁.move (R ++ (front ++ [name])) (R ++ (stash a ++ (front ++ [name])))) t') :
    Recoverable T t' root R k a filled (moved ++ [front ++ [name]]) := by
  obtain ⟨hdir, hnone, htaken⟩ := h.aside_free hx hlater hsome hp hcan
  have hmid := h.toMidway.aside hR h.taken hx hfits hfits' hlater hsome hp hcan
  have hmem : front ++ [name] ∈ moved ++ [front ++ [name]] :=
    List.mem_append_right _ List.mem_cons_self
  have hall : Midway T t' root R a filled (moved ++ [front ++ [name]]) ∧
      Taken t' R (filled ++ moved) ∧ t'.get? (R ++ front) = some .dir ∧
      t'.get? (R ++ (front ++ [name])) = none := by
    rcases ht' with rfl | hp'
    · exact ⟨hmid, htaken, hdir, hnone⟩
    · refine ⟨hmid.pave (hmid.around.seat.trans ?_) (.inr hmem) hp', htaken.pave hp', hp'.dir, ?_⟩
      · exact h.around.seat.symm.trans hR
      · rw [hp'.get?_of_not_above, hnone]
        rw [← List.append_assoc]
        exact concat_not_above _ _
  obtain ⟨hmid', htaken', hdir', hnone'⟩ := hall
  refine ⟨hmid', fun c hc =>
    .inl (htaken'.dir (List.mem_append_left _ hc) (h.places c (.inl hc)).1), fun s hs => ?_⟩
  rcases List.mem_append.1 hs with hs | hs
  · exact htaken'.dir (List.mem_append_right _ hs) (h.places s (.inr hs)).1
  · rw [List.mem_singleton.1 hs, List.dropLast_concat, hnone']
    exact ⟨hdir', nofun⟩

/-- A place whose content was set aside and that was filled again is taken. -/
theorem Progress.refill {t₂ : Tree}
    (hp' : Paved R front
      (t₁.move (R ++ (front ++ [name])) (R ++ (stash a ++ (front ++ [name])))) t₂)
    {n : Node} (hadd : Added (R ++ (front ++ [name])) n t₂ t') (hne : n ≠ .dir)
    (hn : ∀ target, n = .link target → T.TargetsFit ∧ ∃ l, t₂.get? l = some (.link target)) :
    Progress T t' root R a filled (moved ++ [front ++ [name]]) := by
  obtain ⟨-, -, htaken⟩ := h.aside_free hx hlater hsome hp hcan
  have hmid := h.toMidway.aside hR h.taken hx hfits hfits' hlater hsome hp hcan
  have hmem : front ++ [name] ∈ moved ++ [front ++ [name]] :=
    List.mem_append_right _ List.mem_cons_self
  have hR' := hmid.around.seat.trans (h.around.seat.symm.trans hR)
  refine ⟨(hmid.pave hR' (.inr hmem) hp').add (.inr hmem) hadd hn,
    ((htaken.pave hp').add hne hadd).of_subset ?_,
    ((h.stashed.aside hx hp hcan).pave hx hp').add hx hadd⟩
  rw [List.append_assoc]
  exact fun p hp => hp

end Aside

/-- What a path leads to, a link not being followed, is somewhere in the tree. -/
theorem exists_of_nodeItself? {source : Path} {n : Node} (h : t.nodeItself? source = some n) :
    ∃ l, t.get? l = some n := by
  rw [nodeItself?] at h
  split at h
  · exact ⟨_, h⟩
  · cases h

/-- Whether each link below the seat was there before or is one of the sources, read in a tree
that differs below the seat at most. -/
def LinksFrom (T t : Tree) (R : Location) (sources : List Path) : Prop :=
  ∀ y target, t.get? (R ++ y) = some (.link target) →
    (∃ y', T.get? (R ++ y') = some (.link target)) ∨
      ∃ source ∈ sources, ∃ t', SameAround R T t' ∧ t'.nodeItself? source = some (.link target)

theorem LinksFrom.pave {sources : List Path} (h : LinksFrom T t R sources) {names : List String}
    (hp : Paved R names t t₁) : LinksFrom T t₁ R sources :=
  fun y target hy => h y target (hp.grown.of_ne_dir hy (by simp))

theorem LinksFrom.aside {sources : List Path} (h : LinksFrom T t R sources)
    (hcan : t.canMove (R ++ x) (R ++ (stash a ++ x)) = true) :
    LinksFrom T (t.move (R ++ x) (R ++ (stash a ++ x))) R sources := by
  intro y target hy
  obtain ⟨y', hy'⟩ := exists_below_of_get?_aside hcan hy
  exact h y' target hy'

theorem LinksFrom.add {sources : List Path} (h : LinksFrom T t R sources) {n : Node} {source : Path}
    (hadd : Added (R ++ x) n t t') (haround : SameAround R T t)
    (hn : ∀ target, n = .link target → t.nodeItself? source = some (.link target)) :
    LinksFrom T t' R (sources ++ [source]) := by
  intro y target hy
  rw [hadd.get?] at hy
  split at hy
  · exact .inr ⟨source, List.mem_append_right _ List.mem_cons_self, t, haround,
      hn target (Option.some.inj hy)⟩
  · rcases h y target hy with hT | ⟨s, hs, hrest⟩
    · exact .inl hT
    · exact .inr ⟨s, List.mem_append_left _ hs, hrest⟩

/-- Whether the targets of all links are texts without overlong names if a source is a link,
whatever is below the seat. -/
def SourceFits (T : Tree) (R : Location) (source : Path) : Prop :=
  ∀ t target, SameAround R T t → t.nodeItself? source = some (.link target) → T.TargetsFit

/-- A source that is a link is one that can be made again. -/
theorem SourceFits.hasNull_eq {source : Path} {target : String} (hsource : SourceFits T R source)
    (htargets : T.TargetsFit → t.TargetsFit) (haround : SameAround R T t)
    (h : t.nodeItself? source = some (.link target)) : hasNull target = false := by
  obtain ⟨l, hl⟩ := exists_of_nodeItself? h
  exact (htargets (hsource t target haround h) l target hl).1

/-- What a step of a copying does that goes well: the place is filled with a copy of the source, and
what was elsewhere is still there, unless it was in the stash. -/
structure Fills (R : Location) (a : String) (x : List String) (source : Path) (t t' : Tree) :
    Prop where
  copy : ∃ t₁ n, SameAround R t t₁ ∧ IsCopy t₁ source n ∧ t'.get? (R ++ x) = some n
  kept : ∀ y n, ¬ x <+: y → ¬ stash a <+: y → t.get? (R ++ y) = some n → t'.get? (R ++ y) = some n

/-- A free place is filled after the way to it is paved. -/
theorem Fills.of_free {source : Path} {n : Node} (hR : t.get? R = some .dir)
    (hp : Paved R front t t₁) (hadd : Added (R ++ (front ++ [name])) n t₁ t')
    (hcopy : IsCopy t₁ source n) : Fills R a (front ++ [name]) source t t' where
  copy := ⟨t₁, n, hp.sameAround hR, hcopy, (hadd.get? _).trans (if_pos rfl)⟩
  kept y n' hy _ hn := by
    have hne : R ++ y ≠ R ++ (front ++ [name]) := fun heq =>
      hy ((List.append_cancel_left heq).symm ▸ List.prefix_rfl)
    rw [hadd.get?, if_neg hne]
    exact hp.grown.within _ _ hn

/-- A place is filled whose content is set aside before. -/
theorem Fills.of_aside {source : Path} (hbase : t.get? (R ++ stash a) = some .dir)
    (hx : IsPlace (front ++ [name])) (hR : t.get? R = some .dir)
    (hp : Paved R (stash a ++ front) t t₁)
    (hcan : t₁.canMove (R ++ (front ++ [name])) (R ++ (stash a ++ (front ++ [name]))) = true)
    (h : Fills R a (front ++ [name]) source
      (t₁.move (R ++ (front ++ [name])) (R ++ (stash a ++ (front ++ [name])))) t') :
    Fills R a (front ++ [name]) source t t' where
  copy := by
    obtain ⟨t₂, n, hs, hcopy⟩ := h.copy
    exact ⟨t₂, n, ((hp.sameAround hR).trans (sameAround_aside hcan hx)).trans hs, hcopy⟩
  kept y n hy hstash hn := by
    refine h.kept y n hy hstash ?_
    rw [get?_aside_other hcan hstash, if_neg hy, get?_pave_stash hbase hp hstash, hn]

/-- One step of a copying fails so that everything can be undone, or goes on with one more place
taken. -/
theorem step (hseat : Seat T root R k) (hnull : hasNull root.text = false) (ha : isName a = true)
    (h : Progress T t root R a filled moved) (hentry : IsEntry item (front ++ [name]))
    (hsource : SourceFits T R item.2)
    (hlater : ∀ p, p ∈ filled ∨ p ∈ moved → ¬ front ++ [name] <+: p)
    (hstraight : Straight t R k front) {sources : List Path} (hlinks : LinksFrom T t R sources) :
    (∃ e filled' moved' t', (∀ rest, copyEach root (root.within (stash a)) (item :: rest)
          (undoOf root a filled moved) t =
        (.error (.system e), undoOf root a filled' moved', t')) ∧
      Recoverable T t' root R k a filled' moved') ∨
    ∃ filled' moved' t', (∀ rest, copyEach root (root.within (stash a)) (item :: rest)
          (undoOf root a filled moved) t =
        copyEach root (root.within (stash a)) rest (undoOf root a filled' moved') t') ∧
      Progress T t' root R a filled' moved' ∧ LinksFrom T t' R (sources ++ [item.2]) ∧
      Fills R a (front ++ [name]) item.2 t t' ∧
      ∀ p, p ∈ filled' ∨ p ∈ moved' ↔ p = front ++ [name] ∨ p ∈ filled ∨ p ∈ moved := by
  have hx := hentry.place
  have hfront : front ≠ [] := by
    rintro rfl
    exact absurd hx.deep (by simp)
  have hseat' := hseat.of_sameAround h.around
  have hplain' : Plain (stash a) := by
    rw [stash, plain_cons, plain_cons]
    exact ⟨by decide, ha, plain_nil⟩
  have hstash : stash a ≠ [] := List.cons_ne_nil _ _
  rcases setAside_spec hseat' hnull h.askable hstash hplain' hx.plain hstraight
    (h.ready hx hlater) hx.not_above_stash hx.not_below_stash with
    ⟨e, t₁, he, ht₁⟩ | ⟨hnone, hfits, hfree⟩ | ⟨t₁, hsome, hfits, hfits', htaken, hp⟩
  · -- setting aside was refused
    refine .inl ⟨e, filled, moved, t₁, fun rest => ?_, ?_⟩
    · rw [copyEach_cons hentry, he]
    rcases ht₁ with rfl | ⟨hsome, hp⟩
    · exact h.recoverable
    · have hfront : ∀ s ∈ moved, ¬ s <+: front := fun s hs =>
        h.taken.not_above hsome (List.mem_append_right _ hs)
      have htaken := h.taken.pave hp
      exact ⟨h.toMidway.paveStash hseat'.dir hfront hp,
        fun c hc => .inl (htaken.dir (List.mem_append_left _ hc) (h.places c (.inl hc)).1),
        fun s hs => htaken.dir (List.mem_append_right _ hs) (h.places s (.inr hs)).1⟩
  · -- the place is free
    have htarget : ∀ t₁ target, Paved R front t t₁ → t₁.nodeItself? item.2 = some (.link target) →
        hasNull target = false := fun t₁ target hp =>
      hsource.hasNull_eq (fun hT l target' hl =>
        h.targets hT l target' (hp.grown.of_ne_dir hl (by simp)))
        (h.around.trans (hp.sameAround hseat'.dir))
    rcases copyTo_spec hseat' hnull hentry.source htarget hfront hx.plain hfits hstraight hfree with
      ⟨e, t₁, he, ht₁⟩ | ⟨t₁, t₂, n, hok, hp, hadd, hcopy⟩
    · refine .inl ⟨e, filled ++ [front ++ [name]], moved, t₁, fun rest => ?_,
        h.fail_fill hseat'.dir hx hfits hlater hstraight hfree ht₁⟩
      rw [copyEach_cons hentry, hnone]
      simp only [he, undoOf_record_none]
    · have hn : ∀ target, n = .link target → t₁.nodeItself? item.2 = some (.link target) :=
        fun target heq => (heq ▸ hcopy).of_link
      refine .inr ⟨filled ++ [front ++ [name]], moved, t₂, fun rest => ?_,
        h.fill hseat'.dir hx hfits hlater hfree hp hadd hcopy.ne_dir
          (fun target heq => ⟨hsource t₁ target (h.around.trans (hp.sameAround hseat'.dir))
            (hn target heq), exists_of_nodeItself? (hn target heq)⟩),
        (hlinks.pave hp).add hadd (h.around.trans (hp.sameAround hseat'.dir)) hn,
        .of_free hseat'.dir hp hadd hcopy, fun p => ?_⟩
      · rw [copyEach_cons hentry, hnone]
        simp only [hok, undoOf_record_none]
      · simp only [List.mem_append, List.mem_singleton]
        tauto
  · -- the content of the place was set aside
    have hR : R ++ (front ++ [name]) ≠ [] := List.append_ne_nil_of_right_ne_nil R hx.ne_nil
    have hcan := canMove_aside hx hR hp
    have hmid := h.toMidway.aside hseat'.dir h.taken hx hfits hfits' hlater htaken hp hcan
    obtain ⟨hdir, hfree, -⟩ := h.aside_free hx hlater htaken hp hcan
    have hseat₂ := hseat.of_sameAround hmid.around
    have hstraight₂ := straight_of_dir (k := k) hdir
    have htarget : ∀ t₃ target, Paved R front (t₁.move (R ++ (front ++ [name]))
        (R ++ (stash a ++ (front ++ [name])))) t₃ → t₃.nodeItself? item.2 = some (.link target) →
        hasNull target = false := fun t₃ target hp =>
      hsource.hasNull_eq
        (fun hT l target' hl => hmid.targets hT l target' (hp.grown.of_ne_dir hl (by simp)))
        (hmid.around.trans (hp.sameAround hseat₂.dir))
    rcases copyTo_spec hseat₂ hnull hentry.source htarget hfront hx.plain hfits hstraight₂ hfree
      with ⟨e, t₂, he, ht₂⟩ | ⟨t₂, t₃, n, hok, hp', hadd, hcopy⟩
    · refine .inl ⟨e, filled, moved ++ [front ++ [name]], t₂, fun rest => ?_,
        h.fail_aside hseat'.dir hx hfits hfits' hlater htaken hp hcan ht₂⟩
      rw [copyEach_cons hentry, hsome]
      simp only [he, undoOf_record_some]
    · have hn : ∀ target, n = .link target → t₂.nodeItself? item.2 = some (.link target) :=
        fun target heq => (heq ▸ hcopy).of_link
      refine .inr ⟨filled, moved ++ [front ++ [name]], t₃, fun rest => ?_,
        h.refill hseat'.dir hx hfits hfits' hlater htaken hp hcan hp' hadd hcopy.ne_dir
          (fun target heq => ⟨hsource t₂ target (hmid.around.trans (hp'.sameAround hseat₂.dir))
            (hn target heq), exists_of_nodeItself? (hn target heq)⟩),
        (((hlinks.pave hp).aside hcan).pave hp').add hadd
          (hmid.around.trans (hp'.sameAround hseat₂.dir)) hn,
        .of_aside h.base hx hseat'.dir hp hcan (.of_free hseat₂.dir hp' hadd hcopy), fun p => ?_⟩
      · rw [copyEach_cons hentry, hsome]
        simp only [hok, undoOf_record_some]
      · simp only [List.mem_append, List.mem_singleton]
        tauto

/-! ## All steps -/

/-- A copying that has gone through its first sources goes on with the others. -/
theorem copyEach_append {aside : Path} {done : List (String × Path)} {u u' : Undo}
    (h : copyEach root aside done u T = (.ok (), u', t)) :
    copyEach root aside (done ++ rest) u T = copyEach root aside rest u' t := by
  induction done generalizing u T with
  | nil =>
    cases h
    rfl
  | cons item done ih =>
    obtain ⟨relative, source⟩ := item
    rw [copyEach_cons_apply] at h
    rw [List.cons_append, copyEach_cons_apply]
    rcases hs : setAside (root / relative) (aside / relative) T with ⟨e | kept, t₁⟩ <;>
      rw [hs] at h
    · cases h
    · simp only [] at h ⊢
      rcases hc : copyTo source (root / relative) t₁ with ⟨e | _, t₂⟩ <;> rw [hc] at h
      · cases h
      · exact ih h

/-- The components that a key spells. -/
def namesOf (key : String) : List String := (Path.ofText key).parts

theorem IsEntry.eq_namesOf (h : IsEntry item x) : x = namesOf item.1 := by
  rw [namesOf, h.key, Path.ofText_text h.place.plain]
  rfl

/-- Whether the place of an entry holds a copy of its source, read in a tree that differs below the
seat at most. -/
def Filled (T t : Tree) (R : Location) (item : String × Path) : Prop :=
  ∃ t₁ n, SameAround R T t₁ ∧ IsCopy t₁ item.2 n ∧ t.get? (R ++ namesOf item.1) = some n

/-- A copying of sources in order fills every place or fails so that everything can be undone.
While it goes on, no link may be in the way of a place. -/
theorem copyEach_spec (hseat : Seat T root R k) (hnull : hasNull root.text = false)
    (ha : isName a = true) (hask : T.Askable R) (hbase : T.get? (R ++ stash a) = some .dir)
    (hempty : Stashed T R a [])
    (hentries : ∀ item ∈ items, IsEntry item (namesOf item.1))
    (hsources : ∀ item ∈ items, SourceFits T R item.2)
    (hsorted : items.Pairwise fun i j => ¬ namesOf j.1 <+: namesOf i.1)
    (hlinks : ∀ done filled moved t, done <+: items →
      copyEach root (root.within (stash a)) done {} T = (.ok (), undoOf root a filled moved, t) →
      Progress T t root R a filled moved → LinksFrom T t R (done.map Prod.snd) →
      ∀ item ∈ items, Straight t R k (namesOf item.1)) :
    (∃ e filled moved t, copyEach root (root.within (stash a)) items {} T =
        (.error (.system e), undoOf root a filled moved, t) ∧
      Recoverable T t root R k a filled moved) ∨
    ∃ filled moved t, copyEach root (root.within (stash a)) items {} T =
        (.ok (), undoOf root a filled moved, t) ∧
      Progress T t root R a filled moved ∧ LinksFrom T t R (items.map Prod.snd) ∧
      (∀ p, p ∈ filled ∨ p ∈ moved ↔ p ∈ items.map fun item => namesOf item.1) ∧
      ∀ item ∈ items, Filled T t R item := by
  have hgo : ∀ rest done filled moved t, items = done ++ rest →
      copyEach root (root.within (stash a)) done {} T = (.ok (), undoOf root a filled moved, t) →
      Progress T t root R a filled moved → LinksFrom T t R (done.map Prod.snd) →
      (∀ p, p ∈ filled ∨ p ∈ moved ↔ p ∈ done.map fun item => namesOf item.1) →
      (∀ item ∈ done, Filled T t R item) →
      (∃ e filled' moved' t', copyEach root (root.within (stash a)) rest
          (undoOf root a filled moved) t = (.error (.system e), undoOf root a filled' moved', t') ∧
        Recoverable T t' root R k a filled' moved') ∨
      ∃ filled' moved' t', copyEach root (root.within (stash a)) rest
          (undoOf root a filled moved) t = (.ok (), undoOf root a filled' moved', t') ∧
        Progress T t' root R a filled' moved' ∧ LinksFrom T t' R (items.map Prod.snd) ∧
        (∀ p, p ∈ filled' ∨ p ∈ moved' ↔ p ∈ items.map fun item => namesOf item.1) ∧
        ∀ item ∈ items, Filled T t' R item := by
    intro rest
    induction rest with
    | nil =>
      intro done filled moved t hsplit hdone hprog hfrom hmem hfilled
      rw [List.append_nil] at hsplit
      exact .inr ⟨filled, moved, t, rfl, hprog, hsplit ▸ hfrom, hsplit ▸ hmem, hsplit ▸ hfilled⟩
    | cons item rest ih =>
      intro done filled moved t hsplit hdone hprog hfrom hmem hfilled
      have hitem : item ∈ items := hsplit ▸ by simp
      have hentry := hentries item hitem
      have hstraight := hlinks done filled moved t ⟨_, hsplit.symm⟩ hdone hprog hfrom item hitem
      have hlater : ∀ p, p ∈ filled ∨ p ∈ moved → ¬ namesOf item.1 <+: p := by
        intro p hp
        obtain ⟨i, hi, rfl⟩ := List.mem_map.1 ((hmem p).1 hp)
        rw [hsplit] at hsorted
        exact (List.pairwise_append.1 hsorted).2.2 i hi item List.mem_cons_self
      obtain ⟨front, name, hconcat, -⟩ := hentry.place.exists_concat
      rw [hconcat] at hentry hlater hstraight
      rcases step hseat hnull ha hprog hentry (hsources item hitem) hlater
        (hstraight.of_front (List.prefix_append _ _)) hfrom with
        ⟨e, filled', moved', t', heq, hrec⟩ |
        ⟨filled', moved', t', heq, hprog', hfrom', hfills, hmem'⟩
      · exact .inl ⟨e, filled', moved', t', heq rest, hrec⟩
      · rw [heq rest]
        refine ih (done ++ [item]) filled' moved' t' ?_ ?_ hprog' ?_ ?_ ?_
        · rw [hsplit, List.append_assoc]
          rfl
        · rw [copyEach_append hdone, heq []]
          rfl
        · rw [List.map_append]
          exact hfrom'
        · intro p
          rw [hmem', hmem, ← hconcat, List.map_append]
          simp only [List.map_cons, List.map_nil, List.mem_append, List.mem_singleton]
          tauto
        · -- the places before are not below the one that was filled
          intro i hi
          rcases List.mem_append.1 hi with hi | hi
          · obtain ⟨t₁, n, hs, hcopy, hn⟩ := hfilled i hi
            have hplace : namesOf i.1 ∈ filled ∨ namesOf i.1 ∈ moved :=
              (hmem _).2 (List.mem_map.2 ⟨i, hi, rfl⟩)
            exact ⟨t₁, n, hs, hcopy, hfills.kept _ _ (hlater _ hplace)
              ((hprog.places _ hplace).1.not_both List.prefix_rfl) hn⟩
          · obtain rfl := List.mem_singleton.1 hi
            obtain ⟨t₁, n, hs, hcopy, hn⟩ := hfills.copy
            exact ⟨t₁, n, hprog.around.trans hs, hcopy, hconcat ▸ hn⟩
  exact hgo items [] [] [] T rfl rfl ⟨midway_start hask hbase, nofun, hempty⟩
    (fun y target hy => .inl ⟨y, hy⟩) (by simp) nofun

end Sysroot.Install

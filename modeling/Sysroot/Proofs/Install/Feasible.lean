import Sysroot.Proofs.Install.Contents

/-!
# When a copying goes well

In a sysroot without links, directories can be made along names at which there are directories or
nothing (`Passable`).  So a source that can be read is copied to its place when the way there is
passable and the paths fit, and what was at the place goes aside before (`step_of_passable`).  A
copying with such sources fills all of its places (`copyEach_of_passable`).
-/

namespace Sysroot

open Sysroot.Tree Sysroot.Tree.Action

namespace Tree

variable {t t' : Tree} {root : Path} {R here : Location} {k : Nat} {names front : List String}
  {name : String} {aim : Aim}

/-- Whether there is a directory or nothing at each of some names below a location. -/
def Passable (t : Tree) (R : Location) (names : List String) : Prop :=
  ∀ p, p <+: names → t.get? (R ++ p) = none ∨ t.get? (R ++ p) = some .dir

theorem Passable.of_prefix (h : Passable t R names) (hpre : front <+: names) : Passable t R front :=
  fun p hp => h p (hp.trans hpre)

/-- Where the way ends before a name, the name leads nowhere. -/
theorem locateFrom_of_passable (hdir : t.get? here = some .dir) (hplain : Plain (front ++ [name]))
    (hpass : Passable t here front) (hnot : t.get? (here ++ front) ≠ some .dir) :
    locateFrom t aim k here (front ++ [name]) = .error .noEntry := by
  induction front generalizing here with
  | nil => exact absurd (by rwa [List.append_nil]) hnot
  | cons first rest ih =>
    obtain ⟨hfirst, hrest⟩ : isName first = true ∧ Plain (rest ++ [name]) := plain_cons.1 hplain
    rcases hpass [first] (List.prefix_append [first] rest) with hfree | hthere
    · obtain ⟨⟨h1, h2, h3⟩, h4, -⟩ := isName_iff.1 hfirst
      have hne : rest ++ [name] ≠ [""] := Plain.ne_slash hrest
      unfold locateFrom
      rw [List.cons_append, stretch, hdir]
      simp only [h1, h2, h3, or_self, hne, and_false, if_false, Nat.not_lt.2 h4, hfree,
        concat_ne_nil]
    · rw [List.cons_append, locateFrom_cons_dir hfirst (Plain.ne_slash hrest) hthere]
      refine ih hthere hrest (fun p hp => ?_) (by simpa using hnot)
      rw [List.append_assoc]
      exact hpass _ (List.prefix_append_right_inj [first] |>.2 hp)

/-- Directories can be made along a passable way whose path fits. -/
theorem Seat.ensureDirs_of_passable (h : Seat t root R k) (hnull : hasNull root.text = false)
    (hne : names ≠ []) (hplain : Plain names) (hfits : Fits root names) (hpass : Passable t R names) :
    ∃ t', Action.ensureDirs (root.within names) t = (.ok (), t') ∧ Paved R names t t' := by
  induction names using List.reverseRecOn with
  | nil => exact absurd rfl hne
  | append_singleton front name ih =>
    obtain ⟨hfront, hname⟩ := plain_append.1 hplain
    have hpass' : Passable t R front := hpass.of_prefix (List.prefix_append _ _)
    have hlast := hpass (front ++ [name]) List.prefix_rfl
    rcases hlast with hfree | hdir
    swap
    · exact ⟨t, h.ensureDirs_of_dir hnull hplain hfits hdir, .refl hdir⟩
    by_cases hparent : t.get? (R ++ front) = some .dir
    · obtain ⟨t', hmake, hadded⟩ := h.makeDir_of_free hnull hplain hfits hparent hfree
      refine ⟨t', ?_, (Paved.refl hparent).concat hadded (.inl hfree)⟩
      rw [ensureDirs_concat, ensureDir_apply, hmake]
    · -- the directories above come first, and then the last one
      have hfront' : front ≠ [] := by
        rintro rfl
        rw [List.append_nil] at hparent
        exact hparent h.dir
      obtain ⟨t₁, hup, hpaved⟩ := ih hfront' hfront (hfits.of_append hname) hpass'
      have hseat : Seat t₁ root R k := h.of_sameAround (hpaved.sameAround h.dir)
      have hfree' : t₁.get? (R ++ (front ++ [name])) = none := by
        rw [hpaved.get?_of_not_above fun hpre => ?_, hfree]
        have := ((List.prefix_append_right_inj R).1 hpre).length_le
        simp at this
      obtain ⟨t₂, hmake, hadded⟩ := hseat.makeDir_of_free hnull hplain hfits hpaved.dir hfree'
      have hmissing : t.makeDir (root.within (front ++ [name])) =
          .error (.refused .noEntry (root.within (front ++ [name])).text) := by
        rw [Tree.makeDir, place, placeOr_within hnull hplain,
          h.locate (concat_ne_nil front name) hplain hfits,
          locateFrom_of_passable h.dir hplain hpass' hparent]
        rfl
      refine ⟨t₂, ?_, hpaved.concat hadded (.inl hfree)⟩
      rw [ensureDirs_concat, ensureDir_apply, hmissing]
      simp only [SystemError.reason?, if_true, ne_eq, not_true_eq_false, if_false, hup]
      rw [ensureDir_apply, hmake]

/-- A source whose content can be read is copied to a free place in a directory. -/
theorem Seat.copyFile_of_content (h : Seat t root R k) (hnull : hasNull root.text = false)
    {source : Path} (hsource : hasNull source.text = false) (hplain : Plain (front ++ [name]))
    (hfits : Fits root (front ++ [name])) (hdir : t.get? (R ++ front) = some .dir)
    (hfree : t.get? (R ++ (front ++ [name])) = none) {content : List UInt8}
    (hcontent : t.contentOf source = .ok content) :
    ∃ t', t.copyFile source (root.within (front ++ [name])) = .ok t' ∧
      Added (R ++ (front ++ [name])) (.file content (t.isProgram source)) t t' := by
  have hlocate : t.locate (root.within (front ++ [name])) = .ok (R ++ (front ++ [name])) := by
    rw [h.locate (concat_ne_nil front name) hplain hfits,
      locateFrom_concat hplain hdir (.inr fun _ => by simp [hfree])]
  have hnot : t.isDir (root.within (front ++ [name])) = false := by
    rw [isDir, node?, hlocate]
    simp [hfree]
  have hother : t.sameNode source (root.within (front ++ [name])) = false := by
    rw [sameNode, hlocate]
    split
    · next l m hl hm =>
      cases hm
      by_cases heq : l = R ++ (front ++ [name])
      · simp [heq, hfree]
      · simp [heq]
    · rfl
  have hnull' : hasNull (root.within (front ++ [name])).text = false :=
    (Path.hasNull_within hplain).trans hnull
  obtain ⟨t₁, hwrite, hadd⟩ := h.writeFile_of_free hnull hplain hfits hdir hfree content
  have hseat := h.of_sameAround (hadd.sameAround (concat_ne_nil front name))
  obtain ⟨t₂, hpermit, hadd'⟩ := hseat.permit_of_file hnull hplain hfits
    ((hadd.get? _).trans (if_pos rfl)) (t.isProgram source)
  refine ⟨t₂, ?_, hadd.trans hadd'⟩
  rw [Tree.copyFile]
  simp only [hnot, Bool.false_eq_true, if_false, hsource, hnull', Bool.or_self, hother, hcontent,
    bind, Except.bind, hwrite]
  exact hpermit

end Tree

namespace Install

variable {T t t' : Tree} {root source : Path} {R : Location} {k : Nat} {l : Library}
  {front x : List String} {name a : String} {filled moved : List (List String)}
  {item : String × Path} {items rest : List (String × Path)}

/-! ## One place -/

/-- Setting aside what is at a free place does nothing. -/
theorem setAside_of_free (h : Seat t root R k) (hlinks : NoLinks t R)
    (hplain : Plain (front ++ [name])) (hfits : Fits root (front ++ [name]))
    (hfree : t.get? (R ++ (front ++ [name])) = none) (kept : Path) :
    setAside (root.within (front ++ [name])) kept t = (.ok none, t) := by
  rw [setAside_apply, h.query hlinks.askable (concat_ne_nil front name) hplain hfits,
    h.occupies hplain hlinks.noDirLinks.straight hfits, hfree]
  rfl

/-- What is at a place is brought to where it is kept when the way there is passable and the paths
fit. -/
theorem setAside_of_passable (h : Seat t root R k) (hlinks : NoLinks t R)
    (hnull : hasNull root.text = false) (hplace : IsPlace (front ++ [name])) (ha : isName a = true)
    (hfits : Fits root (front ++ [name])) (hfits' : Fits root (stash a ++ (front ++ [name])))
    (hsome : (t.get? (R ++ (front ++ [name]))).isSome = true)
    (hpass : Passable t R (stash a ++ front))
    (hfree : t.get? (R ++ (stash a ++ (front ++ [name]))) = none) :
    ∃ t₁, setAside (root.within (front ++ [name])) (root.within (stash a ++ (front ++ [name]))) t =
        (.ok (some (root.within (stash a ++ (front ++ [name])))),
          t₁.move (R ++ (front ++ [name])) (R ++ (stash a ++ (front ++ [name])))) ∧
      Paved R (stash a ++ front) t t₁ := by
  have hassoc : stash a ++ (front ++ [name]) = stash a ++ front ++ [name] := by simp
  have hplain' : Plain (stash a ++ front ++ [name]) :=
    hassoc ▸ plain_append.2 ⟨plain_stash ha, hplace.plain⟩
  have hne : stash a ++ front ≠ [] :=
    List.append_ne_nil_of_left_ne_nil (List.cons_ne_nil _ _) front
  obtain ⟨hway, hname⟩ := plain_append.1 hplain'
  rw [hassoc] at hfits' hfree ⊢
  obtain ⟨t₁, hmake, hpaved⟩ := h.ensureDirs_of_passable hnull hne hway (hfits'.of_append hname) hpass
  have hseat := h.of_sameAround (hpaved.sameAround h.dir)
  -- paving the way to where it will be kept changes neither place
  have hsame : t₁.get? (R ++ (front ++ [name])) = t.get? (R ++ (front ++ [name])) :=
    hpaved.get?_of_not_above fun hpre =>
      hplace.not_above_stash ((List.prefix_append_right_inj R).1 hpre)
  have hfree₁ : t₁.get? (R ++ (stash a ++ front ++ [name])) = none := by
    rw [hpaved.get?_of_not_above fun hpre => ?_, hfree]
    exact concat_not_above _ _ (by rwa [← List.append_assoc R] at hpre)
  refine ⟨t₁, ?_, hpaved⟩
  rw [setAside_apply, h.query hlinks.askable (concat_ne_nil front name) hplace.plain hfits,
    h.occupies hplace.plain hlinks.noDirLinks.straight hfits, hsome, Path.parent_within]
  simp only [hmake]
  rw [hseat.rename hnull hplace.plain hplain' hfits hfits' (hsame ▸ hsome) hpaved.dir hfree₁
    (hassoc ▸ hplace.not_above_stash) (hassoc ▸ hplace.not_below_stash)]

/-- A source that can be read is copied to a free place when the way there is passable. -/
theorem copyTo_of_passable (h : Seat t root R k) (hnull : hasNull root.text = false)
    (hsource : hasNull source.text = false) (hfront : front ≠ []) (hplain : Plain (front ++ [name]))
    (hfits : Fits root (front ++ [name])) (hpass : Passable t R front)
    (hfree : t.get? (R ++ (front ++ [name])) = none)
    (hlink : ∀ t₁ target, SameAround R t t₁ → t₁.nodeItself? source ≠ some (.link target))
    (hread : ∀ t₁, SameAround R t t₁ → ∃ content, t₁.contentOf source = .ok content) :
    ∃ t', copyTo source (root.within (front ++ [name])) t = (.ok (), t') := by
  obtain ⟨hfront', hname⟩ := plain_append.1 hplain
  obtain ⟨t₁, hmake, hpaved⟩ := h.ensureDirs_of_passable hnull hfront hfront'
    (hfits.of_append hname) hpass
  have haround := hpaved.sameAround h.dir
  have hfree₁ : t₁.get? (R ++ (front ++ [name])) = none := by
    rw [hpaved.get?_of_not_above fun hpre => ?_, hfree]
    exact concat_not_above _ _ (by rwa [← List.append_assoc] at hpre)
  obtain ⟨content, hcontent⟩ := hread t₁ haround
  obtain ⟨t₂, hcopy, -⟩ := (h.of_sameAround haround).copyFile_of_content hnull hsource hplain hfits
    hpaved.dir hfree₁ hcontent
  refine ⟨t₂, ?_⟩
  rw [copyTo_apply, Path.parent_within, hmake]
  simp only []
  split
  · next target hno => exact absurd hno (hlink t₁ target haround)
  · rw [apply_apply, hcopy]

/-! ## A step of a copying -/

/-- What is on the way to a place that comes later, and at it, is what was there at first, save for
new directories on the way. -/
theorem Midway.get?_later (h : Midway T t root R a filled moved) (hx : IsPlace x)
    (hlater : ∀ p, p ∈ filled ∨ p ∈ moved → ¬ x <+: p)
    (habove : ∀ p, p ∈ filled ∨ p ∈ moved → ¬ p <+: x) {y : List String} (hy : y <+: x) :
    t.get? (R ++ y) = T.get? (R ++ y) ∨
      T.get? (R ++ y) = none ∧ t.get? (R ++ y) = some .dir ∧ y ≠ x := by
  have hstash : ¬ stash a <+: y := fun hpre => hx.not_both List.prefix_rfl (hpre.trans hy)
  rcases h.others y (fun hmem => habove y (.inl hmem) hy) (fun s hs hsy => habove s (.inr hs)
    (hsy.trans hy)) hstash with heq | ⟨hnone, hdir, p, hp, hyp⟩
  · exact .inl heq
  · exact .inr ⟨hnone, hdir, fun heq => hlater p hp (heq ▸ hyp)⟩

/-- The way to where the content of a place will be kept is passable. -/
theorem Progress.passable_stash (h : Progress T t root R a filled moved)
    (habove : ∀ p, p ∈ filled ∨ p ∈ moved → ¬ p <+: front) : Passable t R (stash a ++ front) := by
  intro f hf
  by_cases hstash : stash a <+: f
  · obtain ⟨g, rfl⟩ := hstash
    have hg : g <+: front := (List.prefix_append_right_inj _).1 hf
    by_contra hno
    push Not at hno
    exact hno.2 (h.stashed g (fun s hs hsg => habove s (.inr hs) (hsg.trans hg)) hno.1).1
  · have hfs : f <+: stash a :=
      (List.prefix_or_prefix_of_prefix hf (List.prefix_append _ _)).resolve_right hstash
    exact .inr (get?_of_above h.base ((List.prefix_append_right_inj R).2 hfs)
      fun heq => hstash (by rw [List.append_cancel_left heq]))

/-- What a source has to be like to be copied, in every tree that differs below the seat at most. -/
structure Readable (T : Tree) (R : Location) (source : Path) : Prop where
  ne_link : ∀ t target, SameAround R T t → t.nodeItself? source ≠ some (.link target)
  content : ∀ t, SameAround R T t → ∃ content, t.contentOf source = .ok content

/-- What a place has to be like for a source to be copied there: the way is passable, and its path
and that of where its content is kept fit. -/
structure Room (T : Tree) (root : Path) (R : Location) (a : String) (x : List String) : Prop where
  fits : Fits root x
  way : Passable T R x.dropLast
  aside : T.get? (R ++ x) ≠ none → Fits root (stash a ++ x)

/-- A step of a copying goes well at a place with room for a source that can be read. -/
theorem step_of_passable (hseat : Seat T root R k) (hnull : hasNull root.text = false)
    (ha : isName a = true) (h : Progress T t root R a filled moved) (hlinks : NoLinks t R)
    (hentry : IsEntry item (front ++ [name])) (hroom : Room T root R a (front ++ [name]))
    (hsource : Readable T R item.2)
    (hlater : ∀ p, p ∈ filled ∨ p ∈ moved → ¬ front ++ [name] <+: p)
    (habove : ∀ p, p ∈ filled ∨ p ∈ moved → ¬ p <+: front ++ [name]) :
    ∃ u t', copyEach root (root.within (stash a)) [item] (undoOf root a filled moved) t =
      (.ok (), u, t') := by
  have hx := hentry.place
  have hfront : front ≠ [] := by
    rintro rfl
    exact absurd hx.deep (by simp)
  have hseat' := hseat.of_sameAround h.around
  have hway : Passable t R front := by
    intro p hp
    rcases h.get?_later hx hlater habove (hp.trans (List.prefix_append front [name])) with
      heq | ⟨-, hdir, -⟩
    · rw [heq]
      exact hroom.way p (by rwa [List.dropLast_concat])
    · exact .inr hdir
  have hat : t.get? (R ++ (front ++ [name])) = T.get? (R ++ (front ++ [name])) :=
    (h.get?_later hx hlater habove List.prefix_rfl).resolve_right fun hno => hno.2.2 rfl
  have hcopies : ∀ {t₁ : Tree} (u : Undo) (kept : Option Path), SameAround R T t₁ →
      Passable t₁ R front → t₁.get? (R ++ (front ++ [name])) = none →
      setAside (root.within (front ++ [name])) (root.within (stash a ++ (front ++ [name]))) t =
        (.ok kept, t₁) →
      ∃ u' t', copyEach root (root.within (stash a)) [item] u t = (.ok (), u', t') := by
    intro t₁ u kept haround hpass hfree haside
    obtain ⟨t', hcopy⟩ := copyTo_of_passable (hseat.of_sameAround haround) hnull hentry.source hfront
      hx.plain hroom.fits hpass hfree
      (fun t₂ target hs => hsource.ne_link t₂ target (haround.trans hs))
      (fun t₂ hs => hsource.content t₂ (haround.trans hs))
    refine ⟨u.record (root.within (front ++ [name])) kept, t', ?_⟩
    rw [copyEach_cons hentry, haside]
    simp only [hcopy]
    rfl
  rcases hnode : t.get? (R ++ (front ++ [name])) with _ | n
  · exact hcopies _ none h.around hway hnode
      (setAside_of_free hseat' hlinks hx.plain hroom.fits hnode _)
  · have hsome : (t.get? (R ++ (front ++ [name]))).isSome = true := by rw [hnode]; rfl
    have hfits' : Fits root (stash a ++ (front ++ [name])) :=
      hroom.aside (by rw [← hat, hnode]; exact nofun)
    obtain ⟨-, hfree⟩ := h.ready (k := k) hx hlater hsome
    obtain ⟨t₁, haside, hpaved⟩ := setAside_of_passable hseat' hlinks hnull hx ha hroom.fits hfits'
      hsome (h.passable_stash fun p hp hpre => habove p hp (hpre.trans (List.prefix_append _ _)))
      hfree
    have hcan := canMove_aside hx (List.append_ne_nil_of_right_ne_nil R hx.ne_nil) hpaved
    obtain ⟨hdir, hfree', -⟩ := h.aside_free hx hlater hsome hpaved hcan
    refine hcopies _ _ ((h.around.trans (hpaved.sameAround hseat'.dir)).trans
      (sameAround_aside hcan hx)) (fun p hp => .inr ?_) hfree' haside
    by_cases heq : p = front
    · rw [heq, hdir]
    · exact get?_of_above hdir ((List.prefix_append_right_inj R).2 hp)
        fun hno => heq (List.append_cancel_left hno)

/-! ## A whole copying -/

/-- A copying whose places have room and lie apart, and whose sources can be read, goes well. -/
theorem copyEach_of_passable (hseat : Seat T root R k) (hnull : hasNull root.text = false)
    (ha : isName a = true) (hlinks : NoLinks T R) (hbase : T.get? (R ++ stash a) = some .dir)
    (hempty : Stashed T R a [])
    (hentries : ∀ item ∈ items, IsEntry item (namesOf item.1))
    (hroom : ∀ item ∈ items, Room T root R a (namesOf item.1))
    (hsources : ∀ item ∈ items, Readable T R item.2)
    (hsorted : items.Pairwise fun i j => ¬ namesOf j.1 <+: namesOf i.1 ∧
      ¬ namesOf i.1 <+: namesOf j.1) :
    ∃ u t, copyEach root (root.within (stash a)) items {} T = (.ok (), u, t) := by
  have hgo : ∀ rest done filled moved t, items = done ++ rest →
      Progress T t root R a filled moved → LinksFrom T t R (done.map Prod.snd) →
      (∀ p, p ∈ filled ∨ p ∈ moved ↔ p ∈ done.map fun item => namesOf item.1) →
      ∃ u t', copyEach root (root.within (stash a)) rest (undoOf root a filled moved) t =
        (.ok (), u, t') := by
    intro rest
    induction rest with
    | nil => exact fun done filled moved t _ _ _ _ => ⟨_, t, rfl⟩
    | cons item rest ih =>
      intro done filled moved t hsplit hprog hfrom hmem
      have hitem : item ∈ items := hsplit ▸ by simp
      have hentry := hentries item hitem
      have hlinks' : NoLinks t R := hfrom.noLinks hlinks fun source hsource t' target hs => by
        obtain ⟨i, hi, rfl⟩ := List.mem_map.1 hsource
        exact (hsources i (hsplit ▸ List.mem_append_left _ hi)).ne_link t' target hs
      have hapart : ∀ p, p ∈ filled ∨ p ∈ moved → ¬ namesOf item.1 <+: p ∧ ¬ p <+: namesOf item.1 := by
        intro p hp
        obtain ⟨i, hi, rfl⟩ := List.mem_map.1 ((hmem p).1 hp)
        rw [hsplit] at hsorted
        exact (List.pairwise_append.1 hsorted).2.2 i hi item List.mem_cons_self
      have hroom' := hroom item hitem
      obtain ⟨front, name, hconcat, -⟩ := hentry.place.exists_concat
      rw [hconcat] at hentry hapart hroom'
      obtain ⟨u, t₁, hone⟩ := step_of_passable hseat hnull ha hprog hlinks' hentry hroom'
        (hsources item hitem) (fun p hp => (hapart p hp).1) (fun p hp => (hapart p hp).2)
      rcases step hseat hnull ha hprog hentry
        (fun t' target hs hl => absurd hl ((hsources item hitem).ne_link t' target hs))
        (fun p hp => (hapart p hp).1) hlinks'.noDirLinks.straight hfrom with
        ⟨e, filled', moved', t', heq, -⟩ | ⟨filled', moved', t', heq, hprog', hfrom', -, hmem'⟩
      · rw [heq []] at hone
        cases hone
      · rw [heq rest]
        refine ih (done ++ [item]) filled' moved' t' (by simp [hsplit]) hprog' ?_ fun p => ?_
        · rw [List.map_append]
          exact hfrom'
        · rw [hmem', hmem, ← hconcat, List.map_append]
          simp only [List.map_cons, List.map_nil, List.mem_append, List.mem_singleton]
          tauto
  exact hgo items [] [] [] T rfl ⟨midway_start hlinks.askable hbase, nofun, hempty⟩
    (fun y target hy => .inl ⟨y, hy⟩) (by simp)

end Install

end Sysroot

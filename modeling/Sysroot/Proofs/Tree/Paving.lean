import Sysroot.Proofs.Tree.Seat

/-!
# Making directories below a seat

Making a directory with those it is in paves the way to it (`Paved`): what is on the way is a
directory afterwards, and was one before or nothing.  When something else is in the way, nothing
changes at all (`Seat.ensureDirs`).
-/

namespace Sysroot.Tree

variable {t t' : Tree} {root : Path} {R l : Location} {k : Nat} {names front : List String}
  {name : String}

/-! ## Trees with more in them -/

/-- Whether a tree is another one with one more node. -/
structure Added (l : Location) (n : Node) (t t' : Tree) : Prop where
  home : t'.home = t.home
  get? : ∀ m, t'.get? m = if m = l then some n else t.get? m

theorem added_set {n : Node} (hcan : t.canSet l n = true) : Added l n t (t.set l n) :=
  ⟨home_set, fun _ => get?_set hcan⟩

theorem added_refl {n : Node} (h : t.get? l = some n) : Added l n t t := by
  refine ⟨rfl, fun m => ?_⟩
  by_cases hm : m = l
  · rw [if_pos hm, hm, h]
  · rw [if_neg hm]

theorem Added.trans {n n' : Node} {t'' : Tree} (h : Added l n t t') (h' : Added l n' t' t'') :
    Added l n' t t'' := by
  refine ⟨h'.home.trans h.home, fun m => ?_⟩
  rw [h'.get?, h.get?]
  split <;> rfl

theorem Added.sameAround {n : Node} {names : List String} (h : Added (R ++ names) n t t')
    (hne : names ≠ []) : SameAround R t t' := by
  refine ⟨h.home, fun m hm => ?_⟩
  rw [h.get?, if_neg]
  rintro rfl
  have heq := hm (List.prefix_append R names)
  exact hne (List.append_right_eq_self.1 heq)

/-- Whether a tree is another one with the directories on the way to a place below the seat. -/
structure Paved (R : Location) (names : List String) (t t' : Tree) : Prop where
  home : t'.home = t.home
  free : ∀ front, front <+: names →
    t.get? (R ++ front) = none ∨ t.get? (R ++ front) = some .dir
  get? : ∀ l, t'.get? l = if R <+: l ∧ l <+: R ++ names then some .dir else t.get? l

namespace Paved

theorem dir (h : Paved R names t t') : t'.get? (R ++ names) = some .dir := by
  rw [h.get?, if_pos ⟨List.prefix_append R names, List.prefix_rfl⟩]

theorem grown (h : Paved R names t t') : t.Grown t' := by
  refine ⟨h.home, fun l => ?_⟩
  rw [h.get?]
  split
  · next hl =>
    obtain ⟨front, rfl⟩ := hl.1
    rcases h.free front ((List.prefix_append_right_inj R).1 hl.2) with hnone | hdir
    · exact .inr ⟨hnone, rfl⟩
    · exact .inl hdir.symm
  · exact .inl rfl

theorem sameAround (h : Paved R names t t') (hR : t.get? R = some .dir) : SameAround R t t' := by
  refine ⟨h.home, fun l hl => ?_⟩
  rw [h.get?]
  split
  · next hpre => rw [hl hpre.1, hR]
  · rfl

/-- The way to a directory that is there is paved. -/
theorem refl (h : t.get? (R ++ names) = some .dir) : Paved R names t t := by
  have hdir : ∀ front, front <+: names → t.get? (R ++ front) = some .dir := by
    intro front hfront
    by_cases heq : front = names
    · rw [heq, h]
    · exact get?_of_above h ((List.prefix_append_right_inj R).2 hfront)
        fun hno => heq (List.append_cancel_left hno)
  refine ⟨rfl, fun front hfront => .inr (hdir front hfront), fun l => ?_⟩
  split
  · next hl =>
    obtain ⟨front, rfl⟩ := hl.1
    exact hdir front ((List.prefix_append_right_inj R).1 hl.2)
  · rfl

/-- A paved way goes on with one more directory. -/
theorem concat {t'' : Tree} (h : Paved R front t t')
    (hadd : Added (R ++ (front ++ [name])) .dir t' t'')
    (hfree : t.get? (R ++ (front ++ [name])) = none ∨
      t.get? (R ++ (front ++ [name])) = some .dir) : Paved R (front ++ [name]) t t'' := by
  refine ⟨hadd.home.trans h.home, fun f hf => ?_, fun l => ?_⟩
  · rcases List.prefix_concat_iff.1 hf with rfl | hf
    · exact hfree
    · exact h.free f hf
  · have hiff : l <+: R ++ (front ++ [name]) ↔ l = R ++ (front ++ [name]) ∨ l <+: R ++ front := by
      rw [← List.append_assoc]
      exact List.prefix_concat_iff
    rw [hadd.get?, h.get?]
    by_cases hl : l = R ++ (front ++ [name])
    · rw [if_pos hl, if_pos ⟨hl ▸ List.prefix_append _ _, hiff.2 (.inl hl)⟩]
    · rw [if_neg hl]
      simp only [hiff, hl, false_or]

/-- What is not on the way stays as it was. -/
theorem get?_of_not_above (h : Paved R names t t') (hl : ¬ l <+: R ++ names) :
    t'.get? l = t.get? l := by
  rw [h.get?, if_neg fun hpre => hl hpre.2]

end Paved

/-! ## Making directories -/

/-- A directory below the seat can be made where there is nothing in a directory. -/
theorem Seat.makeDir_of_free (h : Seat t root R k) (hnull : hasNull root.text = false)
    (hplain : Plain (front ++ [name])) (hfits : Fits root (front ++ [name]))
    (hdir : t.get? (R ++ front) = some .dir) (hfree : t.get? (R ++ (front ++ [name])) = none) :
    ∃ t', t.makeDir (root.within (front ++ [name])) = .ok t' ∧
      Added (R ++ (front ++ [name])) .dir t t' := by
  have hcan : t.canSet (R ++ (front ++ [name])) .dir = true := by
    rw [← List.append_assoc]
    exact canSet_of_dir hdir ((plain_append.1 hplain).2 name List.mem_cons_self) (.inl rfl)
  refine ⟨_, ?_, added_set hcan⟩
  rw [Tree.makeDir, place, h.placeOr hnull hplain hfits hdir (.inl rfl)]
  simp [bind, Except.bind, hfree, pure, Except.pure]

/-- A directory below the seat is made, or refused because there is something, or because its
place is in no directory. -/
theorem Seat.makeDir (h : Seat t root R k) (hnull : hasNull root.text = false)
    (hplain : Plain (front ++ [name])) (hstraight : Straight t R k front) :
    (∃ t', t.makeDir (root.within (front ++ [name])) = .ok t' ∧
      t.get? (R ++ (front ++ [name])) = none ∧ t.get? (R ++ front) = some .dir ∧
      Added (R ++ (front ++ [name])) .dir t t') ∨
    ∃ reason, t.makeDir (root.within (front ++ [name])) =
        .error (.refused reason (root.within (front ++ [name])).text) ∧
      (reason = .noEntry → Fits root (front ++ [name]) ∧ t.get? (R ++ front) ≠ some .dir) := by
  by_cases hfits : Fits root (front ++ [name])
  swap
  · rw [Tree.makeDir, place, placeOr_within hnull hplain, locate_of_not_fits hfits]
    exact .inr ⟨.nameTooLong, rfl, by simp⟩
  by_cases hdir : t.get? (R ++ front) = some .dir
  swap
  · obtain ⟨reason, hreason⟩ := locateFrom_of_not_dir .itself name h.dir
      (plain_append.1 hplain).1 hstraight hdir
    rw [Tree.makeDir, place, placeOr_within hnull hplain,
      h.locate (concat_ne_nil front name) hplain hfits, hreason]
    exact .inr ⟨reason, rfl, fun _ => ⟨hfits, hdir⟩⟩
  cases hnode : t.get? (R ++ (front ++ [name])) with
  | none =>
    obtain ⟨t', ht', hadd⟩ := h.makeDir_of_free hnull hplain hfits hdir hnode
    exact .inl ⟨t', ht', rfl, hdir, hadd⟩
  | some n =>
    rw [Tree.makeDir, place, h.placeOr hnull hplain hfits hdir (.inl rfl)]
    refine .inr ⟨.alreadyExists, ?_, by simp⟩
    simp [bind, Except.bind, hnode, throw, throwThe, MonadExceptOf.throw]

/-- What making one directory below the seat does, a directory that is there being good
enough. -/
theorem Seat.ensureDir (h : Seat t root R k) (hnull : hasNull root.text = false)
    (hplain : Plain (front ++ [name])) (hstraight : Straight t R k (front ++ [name])) :
    (∃ e, Action.ensureDir (root.within (front ++ [name])) t = (.error (.system e), t) ∧
      (e.reason? = some .noEntry →
        Fits root (front ++ [name]) ∧ t.get? (R ++ front) ≠ some .dir)) ∨
    ∃ t', Action.ensureDir (root.within (front ++ [name])) t = (.ok (), t') ∧
      (t.get? (R ++ (front ++ [name])) = none ∨ t.get? (R ++ (front ++ [name])) = some .dir) ∧
      t.get? (R ++ front) = some .dir ∧ Added (R ++ (front ++ [name])) .dir t t' := by
  rw [Action.ensureDir_apply]
  rcases h.makeDir hnull hplain (hstraight.of_front (List.prefix_append _ _)) with
    ⟨t', hmake, hfree, hdir, hadded⟩ | ⟨reason, hmake, hreason⟩
  · rw [hmake]
    exact .inr ⟨t', rfl, .inl hfree, hdir, hadded⟩
  · rw [hmake]
    simp only [SystemError.reason?, Option.some.injEq]
    by_cases hentry : reason = .noEntry
    · rw [if_pos hentry]
      exact .inl ⟨_, rfl, fun _ => hreason hentry⟩
    rw [if_neg hentry]
    rcases hquery : t.query (root.within (front ++ [name])) isDir with e | _ | _
    · obtain rfl := query_error hquery
      exact .inl ⟨_, rfl, by simp⟩
    · exact .inl ⟨_, rfl, fun hno => absurd (Option.some.inj hno) hentry⟩
    · have hdir : t.get? (R ++ (front ++ [name])) = some .dir :=
        h.get?_of_isDir (concat_ne_nil front name) hplain hstraight
          ((query_ok hquery).resolve_right nofun)
      exact .inr ⟨t, rfl, .inr hdir, get?_of_concat hdir, added_refl hdir⟩

theorem ensureDirs_concat (root : Path) (front : List String) (name : String) (t : Tree) :
    Action.ensureDirs (root.within (front ++ [name])) t =
      match Action.ensureDir (root.within (front ++ [name])) t with
      | (.error (.system e), t₁) =>
          if e.reason? ≠ some .noEntry then (.error (.system e), t₁)
          else match Action.ensureDirs (root.within front) t₁ with
            | (.ok (), t₂) => Action.ensureDir (root.within (front ++ [name])) t₂
            | (.error fault, t₂) => (.error fault, t₂)
      | (other, t₁) => (other, t₁) := by
  have hparts : (root.within (front ++ [name])).parts.reverse =
      name :: (root.within front).parts.reverse := by
    rw [Path.parts_within, Path.parts_within, ← List.append_assoc, List.reverse_concat]
  have hpath : (⟨root.anchor, (name :: (root.within front).parts.reverse).reverse⟩ : Path) =
      root.within (front ++ [name]) := by
    rw [← hparts, List.reverse_reverse]
    rfl
  have hcons := Action.ensureDirsUp_cons_apply root.anchor name (root.within front).parts.reverse t
  rw [hpath] at hcons
  rw [Action.ensureDirs, hparts]
  exact hcons

/-- Making a directory that is there changes nothing. -/
theorem Seat.ensureDirs_of_dir (h : Seat t root R k) (hnull : hasNull root.text = false)
    (hplain : Plain (front ++ [name])) (hfits : Fits root (front ++ [name]))
    (hdir : t.get? (R ++ (front ++ [name])) = some .dir) :
    Action.ensureDirs (root.within (front ++ [name])) t = (.ok (), t) := by
  have hparent : t.get? (R ++ front) = some .dir := get?_of_concat hdir
  have hmake : t.makeDir (root.within (front ++ [name])) =
      .error (.refused .alreadyExists (root.within (front ++ [name])).text) := by
    rw [Tree.makeDir, place, h.placeOr hnull hplain hfits hparent (.inl rfl)]
    simp [bind, Except.bind, hdir, throw, throwThe, MonadExceptOf.throw]
  have hlocate : t.locate (root.within (front ++ [name])) = .ok (R ++ (front ++ [name])) := by
    rw [h.locate (concat_ne_nil front name) hplain hfits,
      locateFrom_concat hplain hparent (.inr fun _ => by simp [hdir])]
  have hquery : t.query (root.within (front ++ [name])) isDir = .ok true := by
    rw [query_eq_ok (by simp [hlocate]), isDir, node?, hlocate]
    simp [hdir]
  rw [ensureDirs_concat, Action.ensureDir_apply, hmake]
  simp only [SystemError.reason?, reduceCtorEq, if_false, Option.some.injEq, hquery]

/-- A path with a NUL has no directories. -/
theorem ensureDirs_of_null {p : Path} (h : hasNull p.text = true) :
    (Action.ensureDirs p t).1 = .error .nullCharacter := by
  have hone : Action.ensureDir p t = (.error .nullCharacter, t) := by
    rw [Action.ensureDir_apply, Tree.makeDir, place, placeOr, if_pos h]
    rfl
  obtain ⟨anchor, parts⟩ := p
  rcases hrev : parts.reverse with _ | ⟨name, up⟩
  · obtain rfl := List.reverse_eq_nil_iff.1 hrev
    exact congrArg Prod.fst hone
  · have hparts : (name :: up).reverse = parts := by rw [← hrev, List.reverse_reverse]
    show (Action.ensureDirsUp anchor parts.reverse t).1 = _
    rw [hrev, Action.ensureDirsUp_cons_apply, hparts, hone]

/-- Making a directory below the seat, with those it is in, paves the way to it or is refused;
then it changes nothing. -/
theorem Seat.ensureDirs (h : Seat t root R k) (hnull : hasNull root.text = false)
    {first : String} (hplain : Plain (first :: names))
    (hstraight : Straight t R k (first :: names)) :
    (∃ e, Action.ensureDirs (root.within (first :: names)) t = (.error (.system e), t)) ∨
    ∃ t', Action.ensureDirs (root.within (first :: names)) t = (.ok (), t') ∧
      Paved R (first :: names) t t' := by
  induction names using List.reverseRecOn with
  | nil =>
    have hconcat := ensureDirs_concat root [] first t
    rw [List.nil_append] at hconcat
    have hplain' : Plain ([] ++ [first]) := hplain
    rcases h.ensureDir hnull hplain' hstraight with
      ⟨e, he, hreason⟩ | ⟨t', ht', hfree, hdir, hadd⟩
    · have hentry : e.reason? ≠ some .noEntry := fun hno => by
        have hroot := (hreason hno).2
        rw [List.append_nil] at hroot
        exact hroot h.dir
      rw [hconcat, show Action.ensureDir (root.within [first]) t = _ from he]
      exact .inl ⟨e, if_pos hentry⟩
    · rw [hconcat, show Action.ensureDir (root.within [first]) t = _ from ht']
      exact .inr ⟨t', rfl, (Paved.refl hdir).concat hadd hfree⟩
  | append_singleton names name ih =>
    rw [← List.cons_append] at hplain
    have hfront := (plain_append.1 hplain).1
    have hstraight' : Straight t R k (first :: names) :=
      hstraight.of_front (List.prefix_append (first :: names) [name])
    rw [← List.cons_append, ensureDirs_concat]
    rcases h.ensureDir hnull hplain hstraight with
      ⟨e, he, hreason⟩ | ⟨t', ht', hfree, hdir, hadd⟩
    · rw [he]
      simp only []
      by_cases hentry : e.reason? ≠ some .noEntry
      · rw [if_pos hentry]
        exact .inl ⟨e, rfl⟩
      rw [if_neg hentry]
      obtain ⟨hfits, hnot⟩ := hreason (not_not.1 hentry)
      rcases ih hfront hstraight' with ⟨e', he'⟩ | ⟨t₁, ht₁, hpaved⟩
      · rw [he']
        exact .inl ⟨e', rfl⟩
      -- the directory that was missing is there now
      have hfree : t.get? (R ++ (first :: names ++ [name])) = none := get?_concat_eq_none hnot
      have hfree₁ : t₁.get? (R ++ (first :: names ++ [name])) = none := by
        rw [hpaved.get?_of_not_above, hfree]
        rw [← List.append_assoc]
        exact concat_not_above _ _
      obtain ⟨t₂, ht₂, hadd⟩ := (h.of_sameAround (hpaved.sameAround h.dir)).makeDir_of_free hnull
        hplain hfits hpaved.dir hfree₁
      rw [ht₁]
      simp only []
      rw [Action.ensureDir_apply, ht₂]
      exact .inr ⟨t₂, rfl, hpaved.concat hadd (.inl hfree)⟩
    · rw [ht']
      exact .inr ⟨t', rfl, (Paved.refl hdir).concat hadd hfree⟩

end Sysroot.Tree

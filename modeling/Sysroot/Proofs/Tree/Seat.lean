import Sysroot.Proofs.Tree.Actions

/-!
# The tree below a root

A root has its seat at a location when its path leads there whatever is below that location:
then the paths below the root are the locations below the seat, as far as no link on the way
leads to a directory (`Straight`).  The operations on a path below a root are stated for its
location.
-/

namespace Sysroot.Tree

variable {t t' : Tree} {root : Path} {R l : Location} {k : Nat} {aim : Aim}
  {names front : List String} {name : String}

/-! ## Seats -/

/-- Whether trees differ below a location at most. -/
structure SameAround (R : Location) (t t' : Tree) : Prop where
  home : t'.home = t.home
  get? : ∀ l, (R <+: l → l = R) → t'.get? l = t.get? l

namespace SameAround

theorem refl (R : Location) (t : Tree) : SameAround R t t := ⟨rfl, fun _ _ => rfl⟩

theorem trans {t'' : Tree} (h : SameAround R t t') (h' : SameAround R t' t'') :
    SameAround R t t'' :=
  ⟨h'.home.trans h.home, fun l hl => (h'.get? l hl).trans (h.get? l hl)⟩

theorem symm (h : SameAround R t t') : SameAround R t' t :=
  ⟨h.home.symm, fun l hl => (h.get? l hl).symm⟩

theorem seat (h : SameAround R t t') : t'.get? R = t.get? R := h.get? R fun _ => rfl

end SameAround

/-- A root has its seat at a directory when its path leads there, whatever is below, and `k`
links may still be followed from there. -/
structure Seat (t : Tree) (root : Path) (R : Location) (k : Nat) : Prop where
  dir : t.get? R = some .dir
  leads : ∀ t', SameAround R t t' → ∀ aim names, names ≠ [] → Plain names →
    locateFrom t' aim linkBudget (t'.startOf root) (root.parts ++ names) =
      locateFrom t' aim k R names

/-- The root of a tree is a seat. -/
theorem seat_root (t : Tree) : Seat t ⟨.root, []⟩ [] linkBudget :=
  ⟨rfl, fun _ _ _ _ _ _ => rfl⟩

/-- What happens below a seat does not move it. -/
theorem Seat.of_sameAround (h : Seat t root R k) (hs : SameAround R t t') : Seat t' root R k where
  dir := hs.seat.trans h.dir
  leads := fun t'' hs' => h.leads t'' (hs.trans hs')

/-- A directory below a seat is a seat. -/
theorem Seat.within (h : Seat t root R k) (hplain : Plain names)
    (hdir : t.get? (R ++ names) = some .dir) : Seat t (root.within names) (R ++ names) k := by
  refine ⟨hdir, fun t' haround aim more hmore hplain' => ?_⟩
  have haround' : SameAround R t t' := by
    refine ⟨haround.home, fun l hl => haround.get? l fun hpre => ?_⟩
    have heq := hl ((List.prefix_append R names).trans hpre)
    rw [heq] at hpre ⊢
    exact (hpre.eq_of_length_le (by simp)).symm
  have hlead := h.leads t' haround' aim (names ++ more)
    (List.append_ne_nil_of_right_ne_nil names hmore) (plain_append.2 ⟨hplain, hplain'⟩)
  have hstart : t'.startOf (root.within names) = t'.startOf root := rfl
  rw [hstart, Path.parts_within, List.append_assoc, hlead,
    locateFrom_append hplain hplain' (haround.seat.trans hdir)]

/-- Whether the text of a path below a root is short enough to be asked for. -/
def Fits (root : Path) (names : List String) : Prop :=
  (root.within names).text.utf8ByteSize ≤ textLimit

instance (root : Path) (names : List String) : Decidable (Fits root names) :=
  inferInstanceAs (Decidable (_ ≤ _))

theorem Fits.of_append {more : List String} (h : Fits root (names ++ more)) (hmore : Plain more) :
    Fits root names :=
  Nat.le_trans (Path.size_text_within hmore) h

/-- A path fits when one with no shorter components does. -/
theorem Fits.mono {names' : List String} (h : Fits root names') (hne : names ≠ [])
    (hle : List.Forall₂ (fun a b : String => a.utf8ByteSize ≤ b.utf8ByteSize) names names') :
    Fits root names := by
  have hne' : names' ≠ [] := by
    rintro rfl
    cases hle
    exact hne rfl
  have hroot : List.Forall₂ (fun a b : String => a.utf8ByteSize ≤ b.utf8ByteSize) root.parts
      root.parts := List.forall₂_same.2 fun _ _ => Nat.le_refl _
  have hjoin := Path.size_join_mono (List.rel_append hroot hle)
  rw [Fits, Path.size_text_of_ne (.inr (by simp [hne'])), Path.anchor_within, Path.parts_within] at h
  rw [Fits, Path.size_text_of_ne (.inr (by simp [hne])), Path.anchor_within, Path.parts_within]
  exact Nat.le_trans (Nat.add_le_add_left hjoin _) h

theorem Seat.locate (h : Seat t root R k) (hne : names ≠ []) (hplain : Plain names)
    (hfits : Fits root names) :
    t.locate (root.within names) aim = locateFrom t aim k R names := by
  rw [Tree.locate, if_neg (Nat.not_lt.2 hfits)]
  exact h.leads t (.refl R t) aim names hne hplain

theorem locate_of_not_fits (h : ¬ Fits root names) :
    t.locate (root.within names) aim = .error .nameTooLong := by
  rw [Tree.locate, if_pos (Nat.not_le.1 h)]

/-! ## Straight ways -/

/-- Whether names lead from a location to a directory, through at most `k` links. -/
def LeadsToDir (t : Tree) (R : Location) (k : Nat) (names : List String) : Prop :=
  ∃ d, locateFrom t .target k R names = .ok d ∧ t.get? d = some .dir

/-- What leads to a directory does so in a larger tree. -/
theorem LeadsToDir.of_within (h : LeadsToDir t R k names) (hw : t.Within t') :
    LeadsToDir t' R k names := by
  obtain ⟨d, hd, hdir⟩ := h
  exact ⟨d, locateFrom_of_within hw hd hdir, hw d _ hdir⟩

/-- Whether no link among the places of names leads to a directory. -/
def Straight (t : Tree) (R : Location) (k : Nat) (names : List String) : Prop :=
  ∀ front target, front <+: names → t.get? (R ++ front) = some (.link target) →
    ¬ LeadsToDir t R k front

theorem Straight.of_front (h : Straight t R k names) (hfront : front <+: names) :
    Straight t R k front :=
  fun f target hf => h f target (hf.trans hfront)

/-- Names all of whose places are free or directories are on a straight way. -/
theorem straight_of_no_link
    (h : ∀ front target, front <+: names → t.get? (R ++ front) ≠ some (.link target)) :
    Straight t R k names :=
  fun front target hfront hlink => absurd hlink (h front target hfront)

/-- The way to a directory is straight. -/
theorem straight_of_dir (h : t.get? (R ++ names) = some .dir) : Straight t R k names := by
  refine straight_of_no_link fun front target hfront hlink => ?_
  by_cases heq : front = names
  · rw [heq, h] at hlink
    cases hlink
  · have hdir := get?_of_above h ((List.prefix_append_right_inj R).2 hfront)
      fun hno => heq (List.append_cancel_left hno)
    rw [hdir] at hlink
    cases hlink

/-- A path that goes straight to a directory goes to the directory of its names. -/
theorem get?_of_straight (hR : t.get? R = some .dir) (hplain : Plain names)
    (hstraight : Straight t R k names) (h : LeadsToDir t R k names) :
    t.get? (R ++ names) = some .dir := by
  induction names using List.reverseRecOn with
  | nil => rwa [List.append_nil]
  | append_singleton front name ih =>
    have hfront := (plain_append.1 hplain).1
    obtain ⟨d, hlocate, hd⟩ := h
    have hparent := ih hfront (hstraight.of_front (List.prefix_append _ _))
      (locateFrom_parent (List.cons_ne_nil name []) hlocate)
    by_cases hlink : ∃ target, t.get? (R ++ (front ++ [name])) = some (.link target)
    · obtain ⟨target, hlink⟩ := hlink
      exact absurd ⟨d, hlocate, hd⟩ (hstraight _ target List.prefix_rfl hlink)
    · rw [locateFrom_concat hplain hparent (.inr (not_exists.1 hlink))] at hlocate
      cases hlocate
      exact hd

/-- Below what does not lead to a directory nothing leads anywhere. -/
theorem locateFrom_of_not_leads (aim : Aim) (name : String) (h : ¬ LeadsToDir t R k front) :
    ∃ e, locateFrom t aim k R (front ++ [name]) = .error e := by
  rcases hlocate : locateFrom t aim k R (front ++ [name]) with e | l
  · exact ⟨e, rfl⟩
  · exact absurd (locateFrom_parent (List.cons_ne_nil name []) hlocate) h

theorem leadsToDir_of_get? (hplain : Plain names) (hdir : t.get? (R ++ names) = some .dir) :
    LeadsToDir t R k names := by
  have happend : locateFrom t .target k R (names ++ []) = locateFrom t .target k (R ++ names) [] :=
    locateFrom_append hplain plain_nil hdir
  rw [List.append_nil, locateFrom_nil] at happend
  exact ⟨_, happend, hdir⟩

/-- Below a place that is no directory a straight way leads nowhere. -/
theorem locateFrom_of_not_dir (aim : Aim) (name : String) (hR : t.get? R = some .dir)
    (hplain : Plain front)
    (hstraight : Straight t R k front) (hdir : t.get? (R ++ front) ≠ some .dir) :
    ∃ e, locateFrom t aim k R (front ++ [name]) = .error e :=
  locateFrom_of_not_leads aim name fun h => hdir (get?_of_straight hR hplain hstraight h)

/-- Whether no link below a location leads to a directory. -/
def NoDirLinks (t : Tree) (R : Location) (k : Nat) : Prop :=
  ∀ y target, t.get? (R ++ y) = some (.link target) → ¬ LeadsToDir t R k y

theorem NoDirLinks.straight (h : NoDirLinks t R k) : Straight t R k names :=
  fun front target _ => h front target

theorem NoDirLinks.of_grown (h : NoDirLinks t' R k) (hg : t.Grown t') : NoDirLinks t R k :=
  fun y target hy hleads => h y target (hg.within _ _ hy) (hleads.of_within hg.within)

/-- Whether there is no link below a location. -/
def NoLinks (t : Tree) (R : Location) : Prop := ∀ y target, t.get? (R ++ y) ≠ some (.link target)

theorem NoLinks.of_grown (h : NoLinks t R) (hg : t.Grown t') : NoLinks t' R :=
  fun y target hy => h y target (hg.of_ne_dir hy (by simp))

theorem NoLinks.noDirLinks (h : NoLinks t R) : NoDirLinks t R k :=
  fun y target hy => absurd hy (h y target)

theorem NoLinks.within (h : NoLinks t R) (names : List String) : NoLinks t (R ++ names) := by
  intro y target
  rw [List.append_assoc]
  exact h (names ++ y) target

theorem NoLinks.targetsFit (h : NoLinks t []) : t.TargetsFit :=
  fun l target hl => absurd hl (h l target)

theorem noLinks_of_entries (h : (t.entries.all fun p => p.2 matches .file .. | .dir) = true) :
    NoLinks t R := by
  intro y target hy
  by_cases hne : R ++ y = []
  · rw [hne] at hy
    cases hy
  · have hentry := List.all_eq_true.1 h _ ((get?_eq_some_iff hne).1 hy)
    cases hentry

theorem NoLinks.askable (h : NoLinks t R) : t.Askable R := fun y target hy => absurd hy (h y target)

/-! ## Questions -/

theorem query_of_not_fits {answer : Tree → Path → Bool} (hnull : hasNull root.text = false)
    (hplain : Plain names) (h : ¬ Fits root names) :
    t.query (root.within names) answer =
      .error (.refused .nameTooLong (root.within names).text) := by
  have hnull' : hasNull (root.within names).text = false := (Path.hasNull_within hplain).trans hnull
  rw [query, locate_of_not_fits h]
  simp only [hnull', Bool.false_eq_true, if_false]

theorem query_eq_ok {p : Path} {answer : Tree → Path → Bool}
    (h : t.locate p ≠ .error .nameTooLong) : t.query p answer = .ok (answer t p) := by
  rw [query]
  split
  · next heq => exact absurd heq h
  · rfl

theorem query_ok {p : Path} {answer : Tree → Path → Bool} {b : Bool}
    (h : t.query p answer = .ok b) : answer t p = b ∨ b = false := by
  unfold query at h
  split at h
  · split at h
    · exact .inr (Except.ok.inj h).symm
    · cases h
  · exact .inl (Except.ok.inj h)

theorem query_error {p : Path} {answer : Tree → Path → Bool} {e : SystemError}
    (h : t.query p answer = .error e) : e = .refused .nameTooLong p.text := by
  unfold query at h
  split at h
  · split at h
    · cases h
    · exact (Except.error.inj h).symm
  · cases h

/-- What a question about a place below the seat is answered. -/
theorem Seat.query (h : Seat t root R k) (hask : t.Askable R) (hne : names ≠ [])
    (hplain : Plain names) (hfits : Fits root names) {answer : Tree → Path → Bool} :
    t.query (root.within names) answer = .ok (answer t (root.within names)) := by
  refine query_eq_ok ?_
  rw [h.locate hne hplain hfits]
  exact hask.locateFrom_ne hplain

theorem concat_ne_nil (front : List String) (name : String) : front ++ [name] ≠ [] :=
  List.append_ne_nil_of_right_ne_nil front (List.cons_ne_nil name [])

/-- A place is occupied when there is a node at its location. -/
theorem Seat.occupies (h : Seat t root R k) (hplain : Plain (front ++ [name]))
    (hstraight : Straight t R k front) (hfits : Fits root (front ++ [name])) :
    t.occupies (root.within (front ++ [name])) = (t.get? (R ++ (front ++ [name]))).isSome := by
  have hlocate : ∀ aim, t.locate (root.within (front ++ [name])) aim =
      locateFrom t aim k R (front ++ [name]) := fun aim =>
    h.locate (concat_ne_nil front name) hplain hfits
  rw [Tree.occupies, holds, isLink, node?, nodeItself?, hlocate, hlocate]
  by_cases hdir : t.get? (R ++ front) = some .dir
  · rw [locateFrom_concat hplain hdir (.inl rfl)]
    rcases hnode : t.get? (R ++ (front ++ [name])) with _ | (_ | target | _)
    · rw [locateFrom_concat hplain hdir (.inr fun _ => by simp [hnode])]
      simp [hnode]
    · rw [locateFrom_concat hplain hdir (.inr fun _ => by simp [hnode])]
      simp [hnode]
    · simp [hnode]
    · rw [locateFrom_concat hplain hdir (.inr fun _ => by simp [hnode])]
      simp [hnode]
  · have hfront := (plain_append.1 hplain).1
    obtain ⟨e, he⟩ := locateFrom_of_not_dir .target name h.dir hfront hstraight hdir
    obtain ⟨e', he'⟩ := locateFrom_of_not_dir .itself name h.dir hfront hstraight hdir
    rw [he, he', get?_concat_eq_none hdir]
    rfl

/-- A straight way that leads to a directory leads to the one of its names. -/
theorem Seat.get?_of_isDir (h : Seat t root R k) (hne : names ≠ []) (hplain : Plain names)
    (hstraight : Straight t R k names) (hdir : t.isDir (root.within names) = true) :
    t.get? (R ++ names) = some .dir := by
  rw [isDir, decide_eq_true_eq, node?] at hdir
  by_cases hfits : Fits root names
  · rw [h.locate hne hplain hfits] at hdir
    rcases hlocate : locateFrom t .target k R names with e | d
    · rw [hlocate] at hdir
      cases hdir
    · rw [hlocate] at hdir
      exact get?_of_straight h.dir hplain hstraight ⟨d, hlocate, hdir⟩
  · rw [locate_of_not_fits hfits] at hdir
    cases hdir

/-! ## Single operations -/

theorem placeOr_within (hnull : hasNull root.text = false) (hplain : Plain names)
    {refused : Errno → SystemError} :
    t.placeOr (root.within names) aim refused =
      (t.locate (root.within names) aim).mapError refused := by
  have hnull' : hasNull (root.within names).text = false := (Path.hasNull_within hplain).trans hnull
  rw [placeOr, hnull']
  rfl

/-- A path in a directory below the seat leads to the place under its name. -/
theorem Seat.placeOr (h : Seat t root R k) (hnull : hasNull root.text = false)
    (hplain : Plain (front ++ [name])) (hfits : Fits root (front ++ [name]))
    (hdir : t.get? (R ++ front) = some .dir)
    (hlink : aim = .itself ∨ ∀ target, t.get? (R ++ (front ++ [name])) ≠ some (.link target))
    {refused : Errno → SystemError} :
    t.placeOr (root.within (front ++ [name])) aim refused = .ok (R ++ (front ++ [name])) := by
  rw [placeOr_within hnull hplain, h.locate (concat_ne_nil front name) hplain hfits,
    locateFrom_concat hplain hdir hlink]
  rfl

/-- A file or a link below the seat can be removed. -/
theorem Seat.unlink (h : Seat t root R k) (hnull : hasNull root.text = false)
    (hplain : Plain (front ++ [name])) (hfits : Fits root (front ++ [name])) {n : Node}
    (hnode : t.get? (R ++ (front ++ [name])) = some n) (hn : n ≠ .dir) :
    t.unlink (root.within (front ++ [name])) = .ok (t.remove (R ++ (front ++ [name]))) := by
  have hdir : t.get? (R ++ front) = some .dir := get?_of_concat hnode
  rw [Tree.unlink, place, h.placeOr hnull hplain hfits hdir (.inl rfl)]
  simp only [bind, Except.bind, hnode]
  cases n with
  | dir => exact absurd rfl hn
  | _ => rfl

theorem endsInName_within (hplain : Plain (front ++ [name])) :
    endsInName (root.within (front ++ [name])) = true := by
  have hname := isName_iff.1 ((plain_append.1 hplain).2 name List.mem_cons_self)
  have hlast : (root.within (front ++ [name])).name = name := by
    rw [Path.name, Path.parts_within, ← List.append_assoc, List.getLast?_concat]
    rfl
  simp [endsInName, hlast, hname.1.2.2]

/-- What is somewhere below the seat can be brought to a free place in a directory there. -/
theorem Seat.rename (h : Seat t root R k) (hnull : hasNull root.text = false)
    {front' : List String} {name' : String} (hplain : Plain (front ++ [name]))
    (hplain' : Plain (front' ++ [name'])) (hfits : Fits root (front ++ [name]))
    (hfits' : Fits root (front' ++ [name']))
    (hsome : (t.get? (R ++ (front ++ [name]))).isSome = true)
    (hdir' : t.get? (R ++ front') = some .dir)
    (hfree' : t.get? (R ++ (front' ++ [name'])) = none)
    (hbelow : ¬ front ++ [name] <+: front' ++ [name'])
    (habove : ¬ front' ++ [name'] <+: front ++ [name]) :
    t.rename (root.within (front ++ [name])) (root.within (front' ++ [name'])) =
      .ok (t.move (R ++ (front ++ [name])) (R ++ (front' ++ [name']))) := by
  obtain ⟨n, hn⟩ := Option.isSome_iff_exists.1 hsome
  have hdir : t.get? (R ++ front) = some .dir := get?_of_concat hn
  have hnull' : hasNull (root.within (front' ++ [name'])).text = false :=
    (Path.hasNull_within hplain').trans hnull
  have hne : R ++ (front ++ [name]) ≠ R ++ (front' ++ [name']) := by
    intro heq
    exact hbelow (List.append_cancel_left heq ▸ List.prefix_rfl)
  have hcov : covers (R ++ (front ++ [name])) (R ++ (front' ++ [name'])) = false :=
    covers_eq_false_iff.2 fun hp => hbelow ((List.prefix_append_right_inj R).1 hp)
  have hcov' : covers (R ++ (front' ++ [name'])) (R ++ (front ++ [name])) = false :=
    covers_eq_false_iff.2 fun hp => habove ((List.prefix_append_right_inj R).1 hp)
  rw [Tree.rename]
  simp only [hnull', Bool.false_eq_true, if_false]
  rw [h.placeOr hnull hplain hfits hdir (.inl rfl), h.placeOr hnull hplain' hfits' hdir' (.inl rfl)]
  simp only [bind, Except.bind, endsInName_within hplain, endsInName_within hplain', Bool.not_true,
    Bool.or_self, Bool.false_eq_true, if_false, hn, hne, hcov, hcov', hfree']
  rfl

end Sysroot.Tree

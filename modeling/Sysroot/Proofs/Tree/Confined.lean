import Sysroot.Proofs.Tree.Paving

/-!
# Changes below a seat

Components that go down (`Descending`) lead from a seat without links to the place of their names
and nowhere else (`Seat.locate_ok`), even when one of them is too long for a name or has a NUL in
it: then they lead nowhere.  So an operation on a path below such a seat changes nothing outside of
it and makes no link there (`ChangedBelow`), whether it is refused or not, and neither does an
action that is made of such operations.
-/

namespace Sysroot.Tree

open Effect

variable {t t' t'' : Tree} {root p : Path} {R l : Location} {k : Nat} {aim : Aim}
  {names front : List String} {name : String}

/-! ## Components that go down -/

/-- Whether components go down: none of them stands for the directory it is in or for the one
above. -/
def Descending (names : List String) : Prop := ∀ name ∈ names, name ≠ "" ∧ name ≠ "." ∧ name ≠ ".."

instance (names : List String) : Decidable (Descending names) :=
  inferInstanceAs (Decidable (∀ name ∈ names, _))

theorem Plain.descending (h : Plain names) : Descending names := fun name hname =>
  (isName_iff.1 (h name hname)).1

theorem Descending.append {more : List String} (h : Descending names) (h' : Descending more) :
    Descending (names ++ more) := fun name hname =>
  (List.mem_append.1 hname).elim (h name) (h' name)

theorem Descending.of_prefix (h : Descending names) (hfront : front <+: names) :
    Descending front := fun name hname => h name (hfront.subset hname)

/-- Where there are no links, components that go down lead to the place of their names. -/
theorem stretch_descending (aim : Aim) (here : Location) (hnames : Descending names)
    (hlinks : NoLinks t here) :
    (∀ l, stretch t aim here names = .arrived l → l = here ++ names) ∧
      ∀ h ns, stretch t aim here names ≠ .link h ns := by
  induction names generalizing here with
  | nil => exact ⟨fun l hl => by cases hl; exact (List.append_nil _).symm, fun _ _ => by simp [stretch]⟩
  | cons name rest ih =>
    obtain ⟨hempty, hdot, hdots⟩ := hnames name List.mem_cons_self
    have hrest := ih (here ++ [name]) (fun n hn => hnames n (List.mem_cons_of_mem _ hn))
      (hlinks.within [name])
    rw [List.append_assoc, List.singleton_append] at hrest
    rw [stretch]
    split
    · simp
    · rw [if_neg (by simp [hempty, hdot]), if_neg hdots]
      split
      · simp
      split
      · simp
      split
      · split
        · next hnil =>
          subst hnil
          exact ⟨fun l hl => by cases hl; rfl, by simp⟩
        · simp
      · next target hlink => exact absurd hlink (hlinks [name] target)
      · exact hrest
    · simp

theorem locateFrom_descending (hnames : Descending names) (hlinks : NoLinks t R)
    (h : locateFrom t aim k R names = .ok l) : l = R ++ names := by
  obtain ⟨harrived, hlink⟩ := stretch_descending aim R hnames hlinks
  unfold locateFrom at h
  split at h
  · next hl =>
    cases h
    exact harrived _ hl
  · cases h
  · cases h
  · next hl => exact absurd hl (hlink _ _)

/-- Among directories without links a component that goes down leads somewhere, or is refused for
its length. -/
theorem locateFrom_ne_noEntry (hnames : Descending (front ++ [name])) (hlinks : NoLinks t R)
    (hdir : t.get? (R ++ front) = some .dir) :
    locateFrom t aim k R (front ++ [name]) ≠ .error .noEntry := by
  obtain ⟨hempty, hdot, hdots⟩ := hnames name (List.mem_append_right _ List.mem_cons_self)
  have hfront : Plain front := fun n hn => isName_of_get? hdir n (List.mem_append_right _ hn)
  obtain ⟨d, hd, hdir'⟩ := leadsToDir_of_get? (k := k) hfront hdir
  obtain rfl := locateFrom_descending hfront.descending hlinks hd
  obtain ⟨k', hk'⟩ := locateFrom_onward aim (List.cons_ne_nil name [])
    (fun heq => hempty (List.cons.inj heq).1) hd hdir
  rw [hk']
  unfold locateFrom
  rw [stretch, hdir]
  simp only [hempty, hdot, hdots, or_self, if_false, List.nil_eq, and_false, List.cons_ne_nil]
  by_cases hlong : nameLimit < name.utf8ByteSize
  · simp [hlong]
  rcases hnode : t.get? (R ++ front ++ [name]) with _ | (_ | target | _)
  · simp [hlong]
  · simp [hlong, stretch]
  · rw [List.append_assoc] at hnode
    exact absurd hnode (hlinks _ target)
  · simp [hlong, stretch]

/-! ## Paths below a seat -/

/-- The path of a seat leads to it. -/
theorem Seat.locateFrom_root (h : Seat t root R k) :
    locateFrom t .target linkBudget (t.startOf root) root.parts = .ok R := by
  have hname : isName "x" = true := by decide
  have hlast : locateFrom t .itself linkBudget (t.startOf root) (root.parts ++ ["x"]) =
      .ok (R ++ ["x"]) := by
    rw [h.leads t (.refl R t) .itself ["x"] (List.cons_ne_nil _ _) (by simp [hname]),
      locateFrom_last hname h.dir (.inl rfl)]
  obtain ⟨d, hd, hdir⟩ := locateFrom_parent (List.cons_ne_nil _ _) hlast
  obtain ⟨k', hk'⟩ := locateFrom_onward .itself (List.cons_ne_nil "x" []) (by decide) hd hdir
  rw [hlast, locateFrom_last hname hdir (.inl rfl)] at hk'
  rw [hd, List.append_cancel_right (Except.ok.inj hk')]

/-- The path of a seat has no NUL in it. -/
theorem Seat.null (h : Seat t root R k) : hasNull root.text = false := by
  cases hn : hasNull root.text with
  | false => rfl
  | true =>
    obtain ⟨name, hname, hnull⟩ := Path.hasNull_text.1 hn
    exact absurd hnull (locateFrom_null h.locateFrom_root h.dir name hname)

/-- What comes after the path of a seat leads on from it. -/
theorem Seat.locateFrom_onward (h : Seat t root R k) (aim : Aim) (hne : names ≠ [])
    (hnames : Descending names) :
    ∃ k', locateFrom t aim linkBudget (t.startOf root) (root.parts ++ names) =
      locateFrom t aim k' R names :=
  Tree.locateFrom_onward aim hne
    (fun heq => (hnames "" (heq ▸ List.mem_cons_self)).1 rfl) h.locateFrom_root h.dir

/-- A path below a seat without links leads to the place of its names, or nowhere. -/
theorem Seat.locate_ok (h : Seat t root R k) (hlinks : NoLinks t R) (hne : names ≠ [])
    (hnames : Descending names) (hok : t.locate (root.within names) aim = .ok l) :
    l = R ++ names := by
  rw [Tree.locate] at hok
  split at hok
  · cases hok
  · obtain ⟨k', hk'⟩ := h.locateFrom_onward aim hne hnames
    exact locateFrom_descending hnames hlinks (hk'.symm.trans hok)

/-- A path below a seat without links leads to what is at the place of its names. -/
theorem Seat.locate_of_get? (h : Seat t root R k) (hlinks : NoLinks t R) (hne : names ≠ [])
    (hfits : Fits root names) {n : Node} (hn : t.get? (R ++ names) = some n) :
    t.locate (root.within names) aim = .ok (R ++ names) := by
  obtain ⟨front, name, rfl⟩ : ∃ front name, names = front ++ [name] :=
    ⟨names.dropLast, names.getLast hne, (List.dropLast_concat_getLast hne).symm⟩
  have hplain : Plain (front ++ [name]) := fun x hx =>
    isName_of_get? hn x (List.mem_append_right R hx)
  rw [h.locate hne hplain hfits]
  exact locateFrom_concat hplain (get?_of_concat hn) (.inr (hlinks _))

/-- What a path below a seat without links leads to is what is at the place of its names, if the
path is short enough. -/
theorem Seat.node?_eq_some (h : Seat t root R k) (hlinks : NoLinks t R) (hne : names ≠ [])
    (hnames : Descending names) {n : Node} :
    t.node? (root.within names) = some n ↔ Fits root names ∧ t.get? (R ++ names) = some n := by
  constructor
  · intro hnode
    rw [node?] at hnode
    split at hnode
    · next l hl =>
      have hfits : Fits root names := by
        by_contra hno
        rw [locate_of_not_fits hno] at hl
        cases hl
      exact ⟨hfits, h.locate_ok hlinks hne hnames hl ▸ hnode⟩
    · cases hnode
  · rintro ⟨hfits, hn⟩
    rw [node?, h.locate_of_get? hlinks hne hfits hn]
    exact hn

/-- Below a seat without links a place is occupied if its path leads somewhere. -/
theorem Seat.exists_node? (h : Seat t root R k) (hlinks : NoLinks t R) (hne : names ≠ [])
    (hnames : Descending names) (hocc : t.occupies (root.within names) = true) :
    ∃ n, t.node? (root.within names) = some n := by
  rw [Tree.occupies, Bool.or_eq_true] at hocc
  rcases hocc with hholds | hlink
  · exact Option.isSome_iff_exists.1 hholds
  · rw [isLink, nodeItself?] at hlink
    split at hlink
    · next target htarget =>
      split at htarget
      · next l hl => exact absurd (h.locate_ok hlinks hne hnames hl ▸ htarget) (hlinks names target)
      · cases htarget
    · cases hlink

/-- Whether a path leads down from a root. -/
def Below (root p : Path) : Prop := ∃ names, names ≠ [] ∧ Descending names ∧ p = root.within names

theorem Below.locate_ok (h : Below root p) (hseat : Seat t root R k) (hlinks : NoLinks t R)
    (hok : t.locate p aim = .ok l) : ∃ names, names ≠ [] ∧ l = R ++ names := by
  obtain ⟨names, hne, hnames, rfl⟩ := h
  exact ⟨names, hne, hseat.locate_ok hlinks hne hnames hok⟩

/-! ## Single operations -/

/-- Whether trees differ at a location and below it at most, without a new link. -/
structure Touched (l : Location) (t t' : Tree) : Prop where
  home : t'.home = t.home
  get? : ∀ m, ¬ l <+: m → t'.get? m = t.get? m
  links : ∀ m target, t'.get? m = some (.link target) → t.get? m = some (.link target)

theorem touched_set {n : Node} (hn : ∀ target, n ≠ .link target) : Touched l t (t.set l n) := by
  by_cases hcan : t.canSet l n = true
  · refine ⟨home_set, fun m hm => ?_, fun m target hm => ?_⟩
    · rw [get?_set hcan, if_neg]
      rintro rfl
      exact hm List.prefix_rfl
    · rw [get?_set hcan] at hm
      split at hm
      · exact absurd (Option.some.inj hm) (hn target)
      · exact hm
  · rw [Tree.set, dif_neg hcan]
    exact ⟨rfl, fun _ _ => rfl, fun _ _ hm => hm⟩

theorem touched_remove (hl : l ≠ []) : Touched l t (t.remove l) := by
  refine ⟨home_remove, fun m hm => ?_, fun m target hm => ?_⟩
  · rw [get?_remove hl, if_neg hm]
  · rw [get?_remove hl] at hm
    split at hm
    · cases hm
    · exact hm

theorem locate_of_place {e : Errno → SystemError} (h : t.placeOr p aim e = .ok l) :
    t.locate p aim = .ok l := by
  rw [Tree.placeOr] at h
  split at h
  · cases h
  · exact mapError_ok h

/-- A file that is written changes the location that its path leads to. -/
theorem writeFile_touched {content : List UInt8} (h : t.writeFile p content = .ok t') :
    ∃ l, t.locate p .newFile = .ok l ∧ Touched l t t' := by
  obtain ⟨l, hl, h⟩ := except_bind_ok h
  refine ⟨l, locate_of_place hl, ?_⟩
  split at h
  · cases h
  · cases h
    exact touched_set nofun
  · cases h
    exact touched_set nofun

theorem makeDir_touched (h : t.makeDir p = .ok t') :
    ∃ l, t.locate p .itself = .ok l ∧ Touched l t t' := by
  obtain ⟨l, hl, h⟩ := except_bind_ok h
  split at h
  · cases h
  · cases h
    exact ⟨l, locate_of_place hl, touched_set nofun⟩

/-- There is nothing to remove at the root but a directory. -/
theorem removeTree_touched (h : t.removeTree p = .ok t') :
    ∃ l, t.locate p .itself = .ok l ∧ (l ≠ [] → Touched l t t') := by
  obtain ⟨l, hl, h⟩ := except_bind_ok h
  refine ⟨l, locate_of_place hl, fun hne => ?_⟩
  split at h
  · cases h
  · cases h
  · obtain ⟨m, -, h⟩ := except_bind_ok h
    split at h <;> cases h
  · cases h
    exact touched_remove hne

theorem unlink_touched (h : t.unlink p = .ok t') :
    ∃ l, t.locate p .itself = .ok l ∧ (l ≠ [] → Touched l t t') := by
  obtain ⟨l, hl, h⟩ := except_bind_ok h
  refine ⟨l, locate_of_place hl, fun hne => ?_⟩
  split at h
  · cases h
  · cases h
  · cases h
    exact touched_remove hne

/-! ## Actions -/

/-- Whether a seat without links stays one, and the tree as it was outside of it. -/
def ChangedBelow (root : Path) (R : Location) (k : Nat) (t t' : Tree) : Prop :=
  Seat t root R k → NoLinks t R → SameAround R t t' ∧ NoLinks t' R

instance : Std.Refl (ChangedBelow root R k) := ⟨fun t _ hlinks => ⟨.refl R t, hlinks⟩⟩

instance : Trans (ChangedBelow root R k) (ChangedBelow root R k) (ChangedBelow root R k) where
  trans h h' hseat hlinks := by
    obtain ⟨hs, hlinks'⟩ := h hseat hlinks
    obtain ⟨hs', hlinks''⟩ := h' (hseat.of_sameAround hs) hlinks'
    exact ⟨hs.trans hs', hlinks''⟩

theorem Touched.changedBelow (h : Seat t root R k → NoLinks t R → ∃ names, names ≠ [] ∧
    Touched (R ++ names) t t') : ChangedBelow root R k t t' := by
  intro hseat hlinks
  obtain ⟨names, hne, htouched⟩ := h hseat hlinks
  refine ⟨⟨htouched.home, fun l hl => htouched.get? l fun hpre => ?_⟩,
    fun y target hy => hlinks y target (htouched.links _ target hy)⟩
  -- a location that is no further down than the seat is not below the names
  obtain ⟨r, rfl⟩ := hpre
  rw [List.append_assoc] at hl
  have heq : R ++ (names ++ r) = R := hl (List.prefix_append _ _)
  exact hne (List.append_eq_nil_iff.1 (List.append_right_eq_self.1 heq)).1

namespace Action

variable {α : Type}

/-- An action that changes a tree below a seat only, whether it succeeds or not. -/
abbrev StaysBelow (root : Path) (R : Location) (k : Nat) (x : Action α) : Prop :=
  Keeps (fun _ => True) (ChangedBelow root R k) x

theorem Reads.staysBelow {x : Action α} (hx : Reads x) : StaysBelow root R k x := .of_eq hx

theorem staysBelow_apply {f : Tree → Except SystemError Tree}
    (hf : ∀ t t', f t = .ok t' → ChangedBelow root R k t t') : StaysBelow root R k (apply f) := by
  intro t _
  rw [apply_apply]
  split
  · next t' heq => exact hf t t' heq
  · exact Std.Refl.refl t

theorem staysBelow_writeFile (hp : Below root p) (content : List UInt8) :
    StaysBelow root R k (apply (Tree.writeFile · p content)) := by
  refine staysBelow_apply fun t t' h => Touched.changedBelow fun hseat hlinks => ?_
  obtain ⟨l, hl, htouched⟩ := writeFile_touched h
  obtain ⟨names, hne, rfl⟩ := hp.locate_ok hseat hlinks hl
  exact ⟨names, hne, htouched⟩

theorem staysBelow_writeText (hp : Below root p) (text : String) :
    StaysBelow root R k (writeText p text) :=
  staysBelow_writeFile hp _

theorem staysBelow_removeTree (hp : Below root p) :
    StaysBelow root R k (apply (Tree.removeTree · p)) := by
  refine staysBelow_apply fun t t' h => Touched.changedBelow fun hseat hlinks => ?_
  obtain ⟨l, hl, htouched⟩ := removeTree_touched h
  obtain ⟨names, hne, rfl⟩ := hp.locate_ok hseat hlinks hl
  exact ⟨names, hne, htouched (List.append_ne_nil_of_right_ne_nil R hne)⟩

theorem staysBelow_unlink (hp : Below root p) :
    StaysBelow root R k (apply (Tree.unlink · p)) := by
  refine staysBelow_apply fun t t' h => Touched.changedBelow fun hseat hlinks => ?_
  obtain ⟨l, hl, htouched⟩ := unlink_touched h
  obtain ⟨names, hne, rfl⟩ := hp.locate_ok hseat hlinks hl
  exact ⟨names, hne, htouched (List.append_ne_nil_of_right_ne_nil R hne)⟩

theorem staysBelow_onRefusal {x : Action α} {handle : SystemError → Action α}
    (hx : StaysBelow root R k x) (hhandle : ∀ e, StaysBelow root R k (handle e)) :
    StaysBelow root R k (onRefusal x handle) := by
  refine hx.tryCatch (fun e _ => ?_) fun e _ he => absurd trivial he
  cases e with
  | system e => exact hhandle e
  | _ => exact .of_eq fun _ => rfl

/-! ### Making directories -/

/-- Making one directory changes the place below the seat; when it is refused for want of the one
it is in, that is none. -/
theorem ensureDir_below (hnames : Descending (front ++ [name])) (hseat : Seat t root R k)
    (hlinks : NoLinks t R) :
    ChangedBelow root R k t (ensureDir (root.within (front ++ [name])) t).2 ∧
      ∀ e, (ensureDir (root.within (front ++ [name])) t).1 = .error (.system e) →
        e.reason? = some .noEntry → t.get? (R ++ front) ≠ some .dir := by
  have hpath : Below root (root.within (front ++ [name])) :=
    ⟨_, concat_ne_nil front name, hnames, rfl⟩
  have hmissing : ∀ e, t.makeDir (root.within (front ++ [name])) = .error e →
      e.reason? = some .noEntry → t.get? (R ++ front) ≠ some .dir := by
    intro e he hentry hdir
    rcases except_bind_error he with he | ⟨l, -, he⟩
    · rw [place, Tree.placeOr] at he
      split at he
      · cases he
        cases hentry
      · obtain ⟨reason, hlocate, rfl⟩ := mapError_error he
        obtain rfl := Option.some.inj hentry
        rw [Tree.locate] at hlocate
        split at hlocate
        · cases hlocate
        · obtain ⟨k', hk'⟩ := hseat.locateFrom_onward _ (concat_ne_nil front name) hnames
          exact locateFrom_ne_noEntry hnames hlinks hdir (hk'.symm.trans hlocate)
    · split at he
      · cases he
        cases hentry
      · cases he
  rw [ensureDir_apply]
  split
  · next t' hmake =>
    refine ⟨Touched.changedBelow fun hseat hlinks => ?_, by simp⟩
    obtain ⟨l, hl, htouched⟩ := makeDir_touched hmake
    obtain ⟨names, hne, rfl⟩ := hpath.locate_ok hseat hlinks hl
    exact ⟨names, hne, htouched⟩
  · exact ⟨Std.Refl.refl t, by simp⟩
  · next e _ hmake =>
    split
    · exact ⟨Std.Refl.refl t, fun e' he' => by cases he'; exact hmissing e hmake⟩
    split
    · exact ⟨Std.Refl.refl t, by simp⟩
    · next hentry _ _ => exact ⟨Std.Refl.refl t, fun e' he' hno => by cases he'; exact absurd hno hentry⟩
    · next hquery =>
      obtain rfl := query_error hquery
      exact ⟨Std.Refl.refl t, fun e' he' hno => by cases he'; cases hno⟩

/-- Making directories below a seat stays below it: none of those above is missing. -/
theorem staysBelow_ensureDirs (hp : Below root p) : StaysBelow root R k (ensureDirs p) := by
  obtain ⟨names, hne, hnames, rfl⟩ := hp
  intro t _ hseat hlinks
  induction names using List.reverseRecOn generalizing t with
  | nil => exact absurd rfl hne
  | append_singleton front name ih =>
    obtain ⟨hfirst, hmissing⟩ := ensureDir_below hnames hseat hlinks
    obtain ⟨hs, hlinks₁⟩ := hfirst hseat hlinks
    rw [ensureDirs_concat]
    split
    · next e t₁ hone =>
      rw [hone] at hs hlinks₁ hmissing
      split
      · exact ⟨hs, hlinks₁⟩
      · next hentry =>
        have hfront : front ≠ [] := by
          rintro rfl
          have hdir := hmissing e rfl (not_not.1 hentry)
          rw [List.append_nil] at hdir
          exact hdir hseat.dir
        obtain ⟨hs₂, hlinks₂⟩ := ih hfront (hnames.of_prefix (List.prefix_append _ _)) t₁
          (fun _ _ => trivial) (hseat.of_sameAround hs) hlinks₁
        split
        · next t₂ htwo =>
          rw [htwo] at hs₂ hlinks₂
          have hseat₂ := (hseat.of_sameAround hs).of_sameAround hs₂
          obtain ⟨hs₃, hlinks₃⟩ := (ensureDir_below hnames hseat₂ hlinks₂).1 hseat₂ hlinks₂
          exact ⟨(hs.trans hs₂).trans hs₃, hlinks₃⟩
        · next htwo =>
          rw [htwo] at hs₂ hlinks₂
          exact ⟨hs.trans hs₂, hlinks₂⟩
    · next hone =>
      rw [hone] at hs hlinks₁
      exact ⟨hs, hlinks₁⟩

end Action

end Sysroot.Tree

namespace Sysroot.Path

open Sysroot.Tree (Descending)

variable {text : String}

/-! ## Texts that go down -/

/-- Whether a text is a relative path without `..`. -/
def GoesDown (text : String) : Prop :=
  (ofText text).anchor = .relative ∧ ".." ∉ (ofText text).parts

instance (text : String) : Decidable (GoesDown text) := inferInstanceAs (Decidable (_ ∧ _))

/-- The components of a relative path without `..` go down. -/
theorem GoesDown.descending (h : GoesDown text) : Descending (ofText text).parts :=
  fun name hname => ⟨(spelled_parts text name hname).1, (spelled_parts text name hname).2.1,
    fun hdots => h.2 (hdots ▸ hname)⟩

/-- What goes down is below the path that it starts from. -/
theorem GoesDown.div (h : GoesDown text) (root : Path) :
    root / text = root.within (ofText text).parts := by
  show root ++ ofText text = _
  rw [show ofText text = ofNames (ofText text).parts from by rw [ofNames, ← h.1],
    append_ofNames]
  rfl

/-- A text without a separator is its only part. -/
theorem partsAt_of_not_mem {sep : Char} {cs : List Char} (h : sep ∉ cs) :
    Text.partsAt sep cs = [cs] := by
  induction cs with
  | nil => rfl
  | cons c r ih =>
    obtain ⟨hc, hr⟩ := not_or.1 (mt List.mem_cons.2 h)
    rw [Text.partsAt, if_neg fun heq => hc heq.symm, ih hr]

/-- A text without a slash goes down unless it leads up. -/
theorem goesDown_of_no_slash (hslash : '/' ∉ text.toList) (hdots : text ≠ "..") :
    GoesDown text := by
  constructor
  · show Anchor.ofText text.toList = .relative
    rcases hcs : text.toList with _ | ⟨c, r⟩
    · rfl
    · have hc : c ≠ '/' := by
        rintro rfl
        exact hslash (hcs ▸ List.mem_cons_self)
      rw [Anchor.ofText, List.takeWhile_cons_of_neg (by simpa using hc)]
      rfl
  · intro hmem
    obtain ⟨cs, hcs, htext⟩ := List.mem_map.1 hmem
    have hpart := (List.mem_filter.1 hcs).1
    rw [partsAt_of_not_mem hslash, List.mem_singleton] at hpart
    rw [hpart, String.ofList_toList] at htext
    exact hdots htext

end Sysroot.Path

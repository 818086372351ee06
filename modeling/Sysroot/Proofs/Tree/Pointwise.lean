import Sysroot.Proofs.Install.Copying
import Sysroot.Proofs.Tree.Confined

/-!
# What an action leaves at a location

Below a seat without links an action that only makes directories, writes files and removes trees
leaves at each location what depends on what was there, and on nothing else of the tree
(`Pointwise`).  So it leaves the same at a location in any two trees that had the same there, however
much they differ elsewhere.
-/

namespace Sysroot.Tree

open Effect Install

variable {α : Type} {t t' : Tree} {root p : Path} {R l here : Location} {k : Nat} {aim : Aim}
  {names front : List String} {name : String}

/-- What comes last on a way that leads somewhere is in a directory. -/
theorem Seat.dir_of_locate (h : Seat t root R k) (hlinks : NoLinks t R)
    (hnames : Descending (front ++ [name]))
    (hok : t.locate (root.within (front ++ [name])) aim = .ok l) :
    l = R ++ (front ++ [name]) ∧ Fits root (front ++ [name]) ∧ t.get? (R ++ front) = some .dir := by
  obtain rfl := h.locate_ok hlinks (concat_ne_nil front name) hnames hok
  rw [Tree.locate] at hok
  split at hok
  · cases hok
  · next hfits =>
    obtain ⟨k', hk'⟩ := h.locateFrom_onward aim (concat_ne_nil front name) hnames
    obtain ⟨d, hd, hdir⟩ := locateFrom_parent (List.cons_ne_nil name []) (hk'.symm.trans hok)
    rw [locateFrom_descending (hnames.of_prefix (List.prefix_append _ _)) hlinks hd] at hdir
    exact ⟨rfl, Nat.not_lt.1 hfits, hdir⟩

/-- A node that is put in a directory is there afterwards, unless it is put under what is no name. -/
theorem get?_set_concat {n : Node} (hdir : t.get? (R ++ front) = some .dir)
    (hfree : n = .dir ∨ t.get? (R ++ (front ++ [name])) ≠ some .dir) (m : Location) :
    (t.set (R ++ (front ++ [name])) n).get? m =
      if m = R ++ (front ++ [name]) ∧ isName name = true then some n else t.get? m := by
  rw [← List.append_assoc] at hfree ⊢
  by_cases hname : isName name = true
  · rw [get?_set (canSet_of_dir hdir hname hfree)]
    simp [hname]
  · have hno : ¬ t.canSet (R ++ front ++ [name]) n = true := by
      simp only [canSet, endsNamed_concat, Bool.and_eq_true]
      exact fun h => hname h.1.2
    rw [Tree.set, dif_neg hno, if_neg fun h => hname h.2]

/-! ## Single operations -/

/-- Making a directory that may be there makes it in the directory that it is in, and leaves all
other locations as they are. -/
theorem Seat.ensureDir_ok (h : Seat t root R k) (hlinks : NoLinks t R)
    (hnames : Descending (front ++ [name]))
    (hok : Action.ensureDir (root.within (front ++ [name])) t = (.ok (), t')) :
    Fits root (front ++ [name]) ∧ t.get? (R ++ front) = some .dir ∧ ∀ m, t'.get? m =
      if m = R ++ (front ++ [name]) ∧ isName name = true then some .dir else t.get? m := by
  rw [Action.ensureDir_apply] at hok
  split at hok
  · next t₁ hmake =>
    cases hok
    obtain ⟨l, hl, hset⟩ := except_bind_ok hmake
    obtain ⟨rfl, hfits, hdir⟩ := h.dir_of_locate hlinks hnames (locate_of_place hl)
    split at hset
    · cases hset
    · cases hset
      exact ⟨hfits, hdir, get?_set_concat hdir (.inl rfl)⟩
  · cases hok
  split at hok
  · cases hok
  split at hok
  · next hquery =>
    cases hok
    have hisDir := (query_ok hquery).resolve_right nofun
    have hnode : t.node? (root.within (front ++ [name])) = some .dir := by
      simpa [Tree.isDir] using hisDir
    obtain ⟨hfits, hn⟩ := (h.node?_eq_some hlinks (concat_ne_nil front name) hnames).1 hnode
    refine ⟨hfits, get?_of_concat hn, fun m => ?_⟩
    split
    · next hm => rw [hm.1, hn]
    · rfl
  · cases hok
  · cases hok

/-- Making directories makes those on the way that have names, and leaves all other locations as
they are. -/
theorem Seat.ensureDirs_ok (h : Seat t root R k) (hlinks : NoLinks t R) (hne : names ≠ [])
    (hnames : Descending names) (hok : Action.ensureDirs (root.within names) t = (.ok (), t')) :
    Fits root names ∧ ∀ m, t'.get? m =
      if R <+: m ∧ m <+: R ++ names ∧ (∀ name ∈ m, isName name = true) then some .dir
      else t.get? m := by
  induction names using List.reverseRecOn generalizing t t' with
  | nil => exact absurd rfl hne
  | append_singleton front name ih =>
    -- all the directories above the last one are there when that one is made
    have hlast : ∀ {t t' : Tree}, Seat t root R k → NoLinks t R →
        Action.ensureDir (root.within (front ++ [name])) t = (.ok (), t') →
        Fits root (front ++ [name]) ∧ ∀ m, t'.get? m =
          if R <+: m ∧ m <+: R ++ (front ++ [name]) ∧ (∀ name ∈ m, isName name = true) then
            some .dir else t.get? m := by
      intro t t' hseat hlinks hone
      obtain ⟨hfits, hdir, hget⟩ := hseat.ensureDir_ok hlinks hnames hone
      refine ⟨hfits, fun m => ?_⟩
      have hplain := isName_of_get? hdir
      rw [hget]
      by_cases hm : m = R ++ (front ++ [name])
      · subst hm
        have hiff : (∀ n ∈ R ++ (front ++ [name]), isName n = true) ↔ isName name = true := by
          simp only [← List.append_assoc, List.forall_mem_append, List.forall_mem_singleton]
          exact and_iff_right (List.forall_mem_append.1 hplain)
        simp only [hiff, List.prefix_append, List.prefix_rfl, true_and]
      · rw [if_neg fun hno => hm hno.1]
        split
        · next hway =>
          obtain ⟨⟨r, rfl⟩, hpre, -⟩ := hway
          rw [← List.append_assoc] at hpre hm
          have hpre := (List.prefix_concat_iff.1 hpre).resolve_left hm
          by_cases heq : R ++ r = R ++ front
          · rw [heq, hdir]
          · exact get?_of_above hdir hpre heq
        · rfl
    rw [ensureDirs_concat] at hok
    split at hok
    · next e t₁ hone =>
      obtain ⟨hchanged, hmissing⟩ := Action.ensureDir_below hnames h hlinks
      obtain ⟨hs, hlinks₁⟩ := hchanged h hlinks
      rw [hone] at hs hlinks₁ hmissing
      split at hok
      · cases hok
      next hentry =>
      have hfront : front ≠ [] := by
        rintro rfl
        have hdir := hmissing e rfl (not_not.1 hentry)
        rw [List.append_nil] at hdir
        exact hdir h.dir
      have hsame : t₁ = t := by
        rw [Action.ensureDir_apply] at hone
        split at hone
        · cases hone
        · cases hone
        · split at hone
          · exact (congrArg Prod.snd hone).symm
          · split at hone <;> exact (congrArg Prod.snd hone).symm
      subst hsame
      have hup := hnames.of_prefix (List.prefix_append front [name])
      split at hok
      · next t₂ htwo =>
        obtain ⟨-, hget₂⟩ := ih h hlinks hfront hup htwo
        have hbelow : Action.StaysBelow root R k (Action.ensureDirs (root.within front)) :=
          Action.staysBelow_ensureDirs ⟨front, hfront, hup, rfl⟩
        obtain ⟨hs₂, hlinks₂⟩ := hbelow.of_apply htwo (fun _ _ => trivial) h hlinks
        obtain ⟨hfits, hget⟩ := hlast (h.of_sameAround hs₂) hlinks₂ hok
        refine ⟨hfits, fun m => ?_⟩
        rw [hget, hget₂]
        by_cases hway : R <+: m ∧ m <+: R ++ (front ++ [name]) ∧ ∀ name ∈ m, isName name = true
        · rw [if_pos hway, if_pos hway]
        · rw [if_neg hway, if_neg hway, if_neg fun hno => hway ⟨hno.1, hno.2.1.trans
            ((List.prefix_append_right_inj R).2 (List.prefix_append _ _)), hno.2.2⟩]
      · cases hok
    · next hone => exact hlast h hlinks (hone.trans hok)

/-- Writing a file puts it under its name, and leaves all other locations as they are. -/
theorem Seat.writeFile_ok (h : Seat t root R k) (hlinks : NoLinks t R) (hne : names ≠ [])
    (hnames : Descending names) {content : List UInt8}
    (hok : t.writeFile (root.within names) content = .ok t') : ∀ m, t'.get? m =
      if m = R ++ names ∧ isName (names.getLast hne) = true then
        some (.file content (mayRun (t.get? m))) else t.get? m := by
  obtain ⟨front, name, rfl⟩ : ∃ front name, names = front ++ [name] :=
    ⟨names.dropLast, names.getLast hne, (List.dropLast_concat_getLast hne).symm⟩
  obtain ⟨l, hl, hset⟩ := except_bind_ok hok
  obtain ⟨rfl, -, hdir⟩ := h.dir_of_locate hlinks hnames (locate_of_place hl)
  intro m
  rw [List.getLast_concat]
  rcases hnode : t.get? (R ++ (front ++ [name])) with _ | (⟨old, executable⟩ | target | _)
  · rw [hnode] at hset
    cases hset
    rw [get?_set_concat hdir (.inr (by simp [hnode]))]
    split
    · next hm =>
      rw [hm.1, hnode]
      rfl
    · rfl
  · rw [hnode] at hset
    cases hset
    rw [get?_set_concat hdir (.inr (by simp [hnode]))]
    split
    · next hm => rw [hm.1, hnode, mayRun]
    · rfl
  · exact absurd hnode (hlinks _ target)
  · rw [hnode] at hset
    cases hset

/-- Removing a tree leaves nothing of it, and all other locations as they are. -/
theorem Seat.removeTree_ok (h : Seat t root R k) (hlinks : NoLinks t R) (hne : names ≠ [])
    (hnames : Descending names) (hok : t.removeTree (root.within names) = .ok t') :
    ∀ m, t'.get? m = if R ++ names <+: m then none else t.get? m := by
  obtain ⟨l, hl, hset⟩ := except_bind_ok hok
  obtain rfl := h.locate_ok hlinks hne hnames (locate_of_place hl)
  split at hset
  · cases hset
  · cases hset
  · obtain ⟨m, -, hset⟩ := except_bind_ok hset
    split at hset <;> cases hset
  · cases hset
    exact fun m => get?_remove (List.append_ne_nil_of_right_ne_nil R hne)

/-! ## The directory of a seat -/

/-- What is said of a link itself differs from what is said of its target at the last component
only. -/
theorem stretch_itself (t : Tree) (here : Location) (names : List String) :
    stretch t .itself here names = stretch t .target here names ∨
      ∃ m target, stretch t .itself here names = .arrived m ∧ t.get? m = some (.link target) := by
  induction names generalizing here with
  | nil => exact .inl rfl
  | cons name rest ih =>
    rw [stretch, stretch]
    split
    · exact .inl rfl
    · split
      · exact ih here
      split
      · exact ih here.dropLast
      simp only [reduceCtorEq, false_and, if_false, and_false, and_true]
      split
      · exact .inl rfl
      split
      · exact .inl rfl
      · next target hlink =>
        by_cases hrest : rest = []
        · rw [if_pos hrest]
          exact .inr ⟨_, target, rfl, hlink⟩
        · rw [if_neg hrest]
          exact .inl rfl
      · exact ih _
    · exact .inl rfl

/-- A path that leads somewhere leads to a link or to the same place when a last link is not
followed. -/
theorem locateFrom_itself (h : locateFrom t .target k here names = .ok l) :
    locateFrom t .itself k here names = .ok l ∨
      ∃ m target, locateFrom t .itself k here names = .ok m ∧ t.get? m = some (.link target) := by
  induction k generalizing here names with
  | zero =>
    unfold locateFrom at h ⊢
    rcases stretch_itself t here names with heq | ⟨m, target, heq, hlink⟩
    · rw [heq]
      rcases hs : stretch t .target here names with l' | e | ⟨h', ns⟩ <;> rw [hs] at h
      · exact .inl h
      · cases h
      · cases h
    · rw [heq]
      exact .inr ⟨m, target, rfl, hlink⟩
  | succ k ih =>
    unfold locateFrom at h ⊢
    rcases stretch_itself t here names with heq | ⟨m, target, heq, hlink⟩
    · rw [heq]
      rcases hs : stretch t .target here names with l' | e | ⟨h', ns⟩ <;> rw [hs] at h
      · exact .inl h
      · cases h
      · exact ih h
    · rw [heq]
      exact .inr ⟨m, target, rfl, hlink⟩

/-- The path of a seat leads to something, a last link not being followed, or is too long. -/
theorem Seat.locate_itself (h : Seat t root R k) : t.locate root .itself = .error .nameTooLong ∨
    ∃ m n, t.locate root .itself = .ok m ∧ t.get? m = some n := by
  rw [Tree.locate]
  split
  · exact .inl rfl
  · rcases locateFrom_itself h.locateFrom_root with hsame | ⟨m, target, hm, hlink⟩
    · exact .inr ⟨R, .dir, hsame, h.dir⟩
    · exact .inr ⟨m, _, hm, hlink⟩

/-- Making the directory of a seat changes nothing. -/
theorem Seat.ensureDirs_self (h : Seat t root R k) : (Action.ensureDirs root t).2 = t := by
  have hmake : ∃ e, t.makeDir root = .error e ∧ e.reason? ≠ some .noEntry := by
    rw [Tree.makeDir, place, Tree.placeOr, h.null]
    rcases h.locate_itself with hlong | ⟨m, n, hm, hn⟩
    · rw [hlong]
      exact ⟨_, rfl, by simp [SystemError.reason?]⟩
    · rw [hm]
      exact ⟨.refused .alreadyExists root.text,
        by simp [Except.mapError, bind, Except.bind, hn, throw, throwThe, MonadExceptOf.throw],
        by simp [SystemError.reason?]⟩
  have hone : (Action.ensureDir root t).2 = t ∧
      ∀ e, (Action.ensureDir root t).1 = .error (.system e) → e.reason? ≠ some .noEntry := by
    obtain ⟨e, he, hentry⟩ := hmake
    rw [Action.ensureDir_apply, he]
    split
    · cases ‹_›
    · exact ⟨rfl, fun _ he' => by cases he'⟩
    · next heq =>
      cases heq
      rw [if_neg hentry]
      split
      · exact ⟨rfl, fun _ he' => by cases he'⟩
      · exact ⟨rfl, fun e' he' => by cases he'; exact hentry⟩
      · next hquery =>
        obtain rfl := query_error hquery
        exact ⟨rfl, fun e' he' => by cases he'; simp [SystemError.reason?]⟩
  obtain ⟨anchor, parts⟩ := root
  rw [Action.ensureDirs]
  rcases hrev : parts.reverse with _ | ⟨name, up⟩
  · obtain rfl := List.reverse_eq_nil_iff.1 hrev
    exact hone.1
  · have hparts : (name :: up).reverse = parts := by rw [← hrev, List.reverse_reverse]
    rw [Action.ensureDirsUp_cons_apply, hparts]
    split
    · next e t₁ he =>
      rw [he] at hone
      rw [if_pos (hone.2 e rfl)]
      exact hone.1
    · next he =>
      rw [he] at hone
      exact hone.1

/-! ## Actions -/

/-- Whether an action, when it succeeds below a seat without links, leaves at each location what
depends on what was there only. -/
def Pointwise (root : Path) (R : Location) (k : Nat) (x : Action α) : Prop :=
  ∃ leaves : Location → Option Node → Option Node, ∀ t a t', Seat t root R k → NoLinks t R →
    x t = (.ok a, t') → ∀ m, t'.get? m = leaves m (t.get? m)

namespace Pointwise

/-- What is the same at a location in two trees stays the same there. -/
theorem get?_eq {x : Action α} (hx : Pointwise root R k x) {t₁ t₂ t₁' t₂' : Tree} {a₁ a₂ : α}
    (hseat₁ : Seat t₁ root R k) (hlinks₁ : NoLinks t₁ R) (hok₁ : x t₁ = (.ok a₁, t₁'))
    (hseat₂ : Seat t₂ root R k) (hlinks₂ : NoLinks t₂ R) (hok₂ : x t₂ = (.ok a₂, t₂'))
    {m : Location} (h : t₁.get? m = t₂.get? m) : t₁'.get? m = t₂'.get? m := by
  obtain ⟨leaves, hleaves⟩ := hx
  rw [hleaves t₁ a₁ t₁' hseat₁ hlinks₁ hok₁, hleaves t₂ a₂ t₂' hseat₂ hlinks₂ hok₂, h]

theorem pure (a : α) : Pointwise root R k (pure a : Action α) :=
  ⟨fun _ n => n, fun _ _ _ _ _ h _ => by cases h; rfl⟩

theorem bind {β : Type} {x : Action Unit} {f : Unit → Action β} (hx : Pointwise root R k x)
    (hstays : Action.StaysBelow root R k x) (hf : Pointwise root R k (f ())) :
    Pointwise root R k (x >>= f) := by
  obtain ⟨first, hfirst⟩ := hx
  obtain ⟨second, hsecond⟩ := hf
  refine ⟨fun m n => second m (first m n), fun t b t' hseat hlinks h m => ?_⟩
  obtain ⟨⟨⟩, t₁, h₁, h₂⟩ := bind_ok h
  obtain ⟨hs, hlinks₁⟩ := hstays.of_apply h₁ (fun _ _ => trivial) hseat hlinks
  rw [hsecond t₁ b t' (hseat.of_sameAround hs) hlinks₁ h₂, hfirst t () t₁ hseat hlinks h₁]

theorem forM {β : Type} {f : β → Action Unit} {as : List β}
    (hf : ∀ a ∈ as, Pointwise root R k (f a) ∧ Action.StaysBelow root R k (f a)) :
    Pointwise root R k (as.forM f) := by
  induction as with
  | nil => exact .pure ()
  | cons a as ih =>
    obtain ⟨hpoint, hstays⟩ := hf a List.mem_cons_self
    exact hpoint.bind hstays (ih fun b hb => hf b (List.mem_cons_of_mem _ hb))

/-- A refusal that is turned into another failure leaves the success as it is. -/
theorem onRefusal {x : Action α} (hx : Pointwise root R k x) (cause : SystemError → Cause) :
    Pointwise root R k (Action.onRefusal x fun e => Action.fail (cause e)) := by
  obtain ⟨leaves, hleaves⟩ := hx
  refine ⟨leaves, fun t a t' hseat hlinks h => hleaves t a t' hseat hlinks ?_⟩
  rw [Action.onRefusal_apply] at h
  split at h
  · cases h
  · next hx => exact hx.trans h

theorem ensureDirs (hp : Below root p) : Pointwise root R k (Action.ensureDirs p) := by
  obtain ⟨names, hne, hnames, rfl⟩ := hp
  exact ⟨fun m n => if R <+: m ∧ m <+: R ++ names ∧ (∀ name ∈ m, isName name = true) then some .dir
    else n, fun t _ t' hseat hlinks h => (hseat.ensureDirs_ok hlinks hne hnames h).2⟩

theorem writeText (hp : Below root p) (text : String) :
    Pointwise root R k (Action.writeText p text) := by
  obtain ⟨names, hne, hnames, rfl⟩ := hp
  refine ⟨fun m n => if m = R ++ names ∧ isName (names.getLast hne) = true then
    some (.file (Text.Utf8.bytesOf text) (mayRun n)) else n, fun t _ t' hseat hlinks h => ?_⟩
  rw [Action.writeText, Action.apply_apply] at h
  split at h
  · next t₁ hwrite =>
    cases h
    exact hseat.writeFile_ok hlinks hne hnames hwrite
  · cases h

end Pointwise

end Sysroot.Tree

import Sysroot.Proofs.Effect
import Sysroot.Proofs.Tree.Spelling

/-!
# Actions on a file tree, one by one

An operation that is refused leaves the tree as it is, and so does a question (`Reads`).  Making
directories, wherever it stops, only adds directories (`Grown`).
-/

namespace Sysroot.Tree

/-- Whether a tree is another one with new directories. -/
structure Grown (t t' : Tree) : Prop where
  home : t'.home = t.home
  get? : ∀ l, t'.get? l = t.get? l ∨ (t.get? l = none ∧ t'.get? l = some .dir)

namespace Grown

variable {t t' t'' : Tree}

theorem refl (t : Tree) : t.Grown t := ⟨rfl, fun _ => .inl rfl⟩

theorem trans (h : t.Grown t') (h' : t'.Grown t'') : t.Grown t'' := by
  refine ⟨h'.home.trans h.home, fun l => ?_⟩
  rcases h.get? l with heq | ⟨hnone, hdir⟩
  · rcases h'.get? l with heq' | ⟨hnone', hdir'⟩
    · exact .inl (heq'.trans heq)
    · exact .inr ⟨heq ▸ hnone', hdir'⟩
  · rcases h'.get? l with heq' | ⟨hnone', -⟩
    · exact .inr ⟨hnone, heq'.trans hdir⟩
    · rw [hdir] at hnone'
      cases hnone'

/-- Nothing is lost in a tree with new directories. -/
theorem within (h : t.Grown t') : t.Within t' := by
  intro l n hn
  rcases h.get? l with heq | ⟨hnone, -⟩
  · exact heq.trans hn
  · rw [hn] at hnone
    cases hnone

/-- What is no directory was there before. -/
theorem of_ne_dir (h : t.Grown t') {l : Location} {n : Node} (hn : t'.get? l = some n)
    (hne : n ≠ .dir) : t.get? l = some n := by
  rcases h.get? l with heq | ⟨-, hdir⟩
  · exact heq ▸ hn
  · rw [hn] at hdir
    exact absurd (Option.some.inj hdir) hne

end Grown

namespace Action

variable {α β : Type} {t t' : Tree} {p : Path}

/-! ## Running an action -/

theorem apply_apply (f : Tree → Except SystemError Tree) (t : Tree) :
    apply f t = match f t with
      | .ok t' => (.ok (), t')
      | .error e => (.error (.ofRefusal e), t) := by
  rw [apply, Effect.bind_of_ok (Effect.get_apply t)]
  cases f t <;> rfl

/-- A change that is carried out is one that the tree allows. -/
theorem apply_ok {f : Tree → Except SystemError Tree} {t t' : Tree} (h : apply f t = (.ok (), t')) :
    f t = .ok t' := by
  rw [apply_apply] at h
  split at h
  · next hok =>
    cases h
    exact hok
  · cases h

theorem ask_apply (f : Tree → Except SystemError α) (t : Tree) :
    ask f t = match f t with
      | .ok a => (.ok a, t)
      | .error e => (.error (.ofRefusal e), t) := by
  rw [ask, Effect.bind_of_ok (Effect.get_apply t)]
  cases f t <;> rfl

theorem ask_ok {f : Tree → Except SystemError α} {a : α} (h : ask f t = (.ok a, t')) :
    f t = .ok a := by
  rw [ask_apply] at h
  split at h
  · next hf =>
    cases h
    exact hf
  · cases h

theorem see_apply (f : Tree → α) (t : Tree) : see f t = (.ok (f t), t) := rfl

theorem onRefusal_apply (x : Action α) (handle : SystemError → Action α) (t : Tree) :
    onRefusal x handle t = match x t with
      | (.error (.system e), t') => handle e t'
      | (other, t') => (other, t') := by
  rw [onRefusal, Effect.tryCatch_apply]
  rcases x t with ⟨e | a, t'⟩
  · cases e <;> rfl
  · rfl

/-! ## Questions -/

/-- Whether an action leaves the tree as it is. -/
def Reads (x : Action α) : Prop := ∀ t, (x t).2 = t

theorem reads_pure (a : α) : Reads (pure a) := fun _ => rfl

theorem reads_throw (e : Fault) : Reads (throw e : Action α) := fun _ => rfl

theorem reads_fail (c : Cause) : Reads (fail c : Action α) := fun _ => rfl

theorem reads_get : Reads (get : Action Tree) := fun _ => rfl

theorem reads_see (f : Tree → α) : Reads (see f) := fun _ => rfl

theorem reads_ask (f : Tree → Except SystemError α) : Reads (ask f) := by
  intro t
  rw [ask_apply]
  cases f t <;> rfl

theorem reads_ofExcept (x : Except Fault α) : Reads (ofExcept x) := by
  cases x <;> exact fun _ => rfl

theorem Reads.bind {x : Action α} {f : α → Action β} (hx : Reads x) (hf : ∀ a, Reads (f a)) :
    Reads (x >>= f) := by
  intro t
  rw [Effect.bind_apply]
  rcases h : x t with ⟨e | a, t'⟩
  · exact (congrArg Prod.snd h).symm.trans (hx t)
  · rw [hf a t']
    exact (congrArg Prod.snd h).symm.trans (hx t)

theorem Reads.map {x : Action α} (f : α → β) (hx : Reads x) : Reads (f <$> x) := by
  rw [map_eq_pure_bind]
  exact hx.bind fun a => reads_pure (f a)

theorem Reads.mapM {f : α → Action β} (hf : ∀ a, Reads (f a)) (l : List α) :
    Reads (l.mapM f) := by
  induction l with
  | nil =>
    rw [List.mapM_nil]
    exact reads_pure _
  | cons a l ih =>
    rw [List.mapM_cons]
    exact (hf a).bind fun b => ih.bind fun bs => reads_pure _

theorem Reads.filterM {f : α → Action Bool} (hf : ∀ a, Reads (f a)) (l : List α) :
    Reads (l.filterM f) := by
  have haux : ∀ (l acc : List α), Reads (l.filterAuxM f acc) := by
    intro l
    induction l with
    | nil => exact fun acc => reads_pure _
    | cons a l ih => exact fun acc => (hf a).bind fun b => ih _
  exact (haux l []).bind fun as => reads_pure _

theorem Reads.eq_of_apply {x : Action α} (hx : Reads x) {r : Except Fault α}
    (h : x t = (r, t')) : t' = t := by
  rw [← hx t, h]

/-- What questions find, each finds in the tree as it is. -/
theorem Reads.exists_of_mem_mapM {f : α → Action β} (hf : ∀ a, Reads (f a)) {l : List α}
    {bs : List β} (h : l.mapM f t = (.ok bs, t')) {b : β} (hb : b ∈ bs) :
    ∃ a ∈ l, f a t = (.ok b, t) := by
  induction l generalizing bs with
  | nil =>
    rw [List.mapM_nil] at h
    cases h
    exact absurd hb List.not_mem_nil
  | cons a l ih =>
    rw [List.mapM_cons] at h
    obtain ⟨b', t₁, hfirst, hafter⟩ := Effect.bind_ok h
    obtain ⟨bs', t₂, hrest, hlast⟩ := Effect.bind_ok hafter
    cases hlast
    obtain rfl := (hf a).eq_of_apply hfirst
    rcases List.mem_cons.1 hb with rfl | hb
    · exact ⟨a, List.mem_cons_self, hfirst⟩
    · obtain ⟨a', ha', hfound⟩ := ih hrest hb
      exact ⟨a', List.mem_cons_of_mem a ha', hfound⟩

theorem Reads.mem_of_mapM {f : α → Action β} (hf : ∀ a, Reads (f a)) {l : List α}
    {bs : List β} (h : l.mapM f t = (.ok bs, t')) {a : α} (ha : a ∈ l) :
    ∃ b ∈ bs, f a t = (.ok b, t) := by
  induction l generalizing bs with
  | nil => exact absurd ha List.not_mem_nil
  | cons a' l ih =>
    rw [List.mapM_cons] at h
    obtain ⟨b', t₁, hfirst, hafter⟩ := Effect.bind_ok h
    obtain ⟨bs', t₂, hrest, hlast⟩ := Effect.bind_ok hafter
    cases hlast
    obtain rfl := (hf a').eq_of_apply hfirst
    rcases List.mem_cons.1 ha with rfl | ha
    · exact ⟨b', List.mem_cons_self, hfirst⟩
    · obtain ⟨b, hb, hfound⟩ := ih hrest ha
      exact ⟨b, List.mem_cons_of_mem b' hb, hfound⟩

/-- When each action of a list goes well and leaves the tree as it is, so do all of them. -/
theorem mapM_of_ok {f : α → Action β} {l : List α} (h : ∀ a ∈ l, ∃ b, f a t = (.ok b, t)) :
    ∃ bs, l.mapM f t = (.ok bs, t) := by
  induction l with
  | nil => exact ⟨[], rfl⟩
  | cons a l ih =>
    obtain ⟨b, hb⟩ := h a List.mem_cons_self
    obtain ⟨bs, hbs⟩ := ih fun a' ha' => h a' (List.mem_cons_of_mem a ha')
    refine ⟨b :: bs, ?_⟩
    rw [List.mapM_cons, Effect.bind_of_ok hb, Effect.bind_of_ok hbs]
    rfl

/-- Nothing passes a test that each fails. -/
theorem filterM_of_false {f : α → Action Bool} {l : List α}
    (h : ∀ a ∈ l, f a t = (.ok false, t)) : l.filterM f t = (.ok [], t) := by
  have haux : ∀ l : List α, (∀ a ∈ l, f a t = (.ok false, t)) → l.filterAuxM f [] t = (.ok [], t) := by
    intro l
    induction l with
    | nil => exact fun _ => rfl
    | cons a l ih =>
      intro h
      have hfirst : (do
          let b ← f a
          l.filterAuxM f (cond b (a :: []) []) : Action (List α)) t = (.ok [], t) := by
        rw [Effect.bind_of_ok (h a List.mem_cons_self)]
        exact ih fun a' ha' => h a' (List.mem_cons_of_mem a ha')
      exact hfirst
  have hall : (do
      let as ← l.filterAuxM f []
      pure as.reverse : Action (List α)) t = (.ok [], t) := by
    rw [Effect.bind_of_ok (haux l h)]
    rfl
  exact hall

/-- What passes a test by questions is kept. -/
theorem Reads.mem_of_filterM {f : α → Action Bool} (hf : ∀ a, Reads (f a)) {l kept : List α}
    (h : l.filterM f t = (.ok kept, t')) {a : α} (ha : a ∈ l) :
    ∃ b, f a t = (.ok b, t) ∧ (b = true → a ∈ kept) := by
  have haux : ∀ (l before kept : List α) (t₁ : Tree), l.filterAuxM f before t = (.ok kept, t₁) →
      (∀ b ∈ before, b ∈ kept) ∧
        ∀ a ∈ l, ∃ b, f a t = (.ok b, t) ∧ (b = true → a ∈ kept) := by
    intro l
    induction l with
    | nil =>
      intro before kept t₁ h
      cases h
      exact ⟨fun b hb => hb, nofun⟩
    | cons a' l ih =>
      intro before kept t₁ h
      obtain ⟨passed, t₂, hfirst, hrest⟩ := Effect.bind_ok h
      obtain rfl := (hf a').eq_of_apply hfirst
      obtain ⟨hbefore, hothers⟩ := ih _ kept t₁ hrest
      refine ⟨fun b hb => hbefore b ?_, fun a ha => ?_⟩
      · cases passed with
        | false => exact hb
        | true => exact List.mem_cons_of_mem a' hb
      · rcases List.mem_cons.1 ha with rfl | ha
        · refine ⟨passed, hfirst, fun hpassed => hbefore a ?_⟩
          rw [hpassed]
          exact List.mem_cons_self
        · exact hothers a ha
  obtain ⟨reversed, t₁, haux', hlast⟩ := Effect.bind_ok h
  cases hlast
  obtain ⟨b, hb, hkept⟩ := (haux l [] reversed _ haux').2 a ha
  exact ⟨b, hb, fun hpassed => List.mem_reverse.2 (hkept hpassed)⟩

/-- A text is read off the tree. -/
theorem reads_readText (p : Path) : Reads (readText p) := by
  refine (reads_ask _).bind fun content => ?_
  cases Text.Utf8.decode? content with
  | none => exact reads_throw _
  | some cs => exact reads_pure _

/-! ## Making directories -/

theorem makeDir_grown (h : t.makeDir p = .ok t') : t.Grown t' := by
  obtain ⟨l, -, h⟩ := Effect.except_bind_ok h
  split at h
  · cases h
  · next hfree =>
    cases h
    have hnone : t.get? l = none := by simpa using hfree
    refine ⟨home_set, fun m => ?_⟩
    by_cases hcan : t.canSet l .dir = true
    · rw [get?_set hcan]
      by_cases hm : m = l
      · rw [if_pos hm, hm]
        exact .inr ⟨hnone, rfl⟩
      · rw [if_neg hm]
        exact .inl rfl
    · rw [set, dif_neg hcan]
      exact .inl rfl

/-- What is done when a directory cannot be made: there may be one. -/
theorem ensureDir_refused {e : SystemError} :
    (do
      if e.reason? = some .noEntry then throw (.system e)
      if !(← ask (query · p isDir)) then throw (.system e) : Action Unit) t =
      if e.reason? = some .noEntry then (.error (.system e), t)
      else match t.query p isDir with
        | .ok true => (.ok (), t)
        | .ok false => (.error (.system e), t)
        | .error e' => (.error (.ofRefusal e'), t) := by
  by_cases hreason : e.reason? = some .noEntry
  · rw [if_pos hreason, if_pos hreason]
    rfl
  · rw [if_neg hreason, if_neg hreason]
    show (ask (query · p isDir) >>=
      fun there => if !there then throw (.system e) else pure ()) t = _
    rw [Effect.bind_apply, ask_apply]
    cases t.query p isDir with
    | error e' => rfl
    | ok there => cases there <;> rfl

/-- What making a directory does, a directory that is there being good enough. -/
theorem ensureDir_apply : ensureDir p t = match t.makeDir p with
    | .ok t' => (.ok (), t')
    | .error .nullCharacter => (.error .nullCharacter, t)
    | .error e =>
        if e.reason? = some .noEntry then (.error (.system e), t)
        else match t.query p isDir with
          | .ok true => (.ok (), t)
          | .ok false => (.error (.system e), t)
          | .error e' => (.error (.ofRefusal e'), t) := by
  rw [ensureDir, onRefusal_apply, apply_apply]
  rcases t.makeDir p with e | t'
  · cases e with
    | nullCharacter => rfl
    | _ => exact ensureDir_refused
  · rfl

theorem ensureDir_grown : t.Grown (ensureDir p t).2 := by
  rw [ensureDir_apply]
  split
  · next t' h => exact makeDir_grown h
  · exact .refl t
  · split
    · exact .refl t
    · split <;> exact .refl t

/-- What making a directory does after it could not be made for want of the one it is in. -/
theorem ensureDirsUp_cons_apply (anchor : Path.Anchor) (name : String) (up : List String)
    (t : Tree) :
    ensureDirsUp anchor (name :: up) t =
      match ensureDir ⟨anchor, (name :: up).reverse⟩ t with
      | (.error (.system e), t₁) =>
          if e.reason? ≠ some .noEntry then (.error (.system e), t₁)
          else match ensureDirsUp anchor up t₁ with
            | (.ok (), t₂) => ensureDir ⟨anchor, (name :: up).reverse⟩ t₂
            | (.error fault, t₂) => (.error fault, t₂)
      | (other, t₁) => (other, t₁) := by
  rw [ensureDirsUp, onRefusal_apply]
  rcases ensureDir ⟨anchor, (name :: up).reverse⟩ t with ⟨fault | _, t₁⟩
  · cases fault with
    | system e =>
      simp only []
      by_cases hreason : e.reason? ≠ some .noEntry
      · rw [if_pos hreason, if_pos hreason]
        rfl
      · rw [if_neg hreason, if_neg hreason]
        show (ensureDirsUp anchor up >>= fun _ => ensureDir _) t₁ = _
        rw [Effect.bind_apply]
        rcases ensureDirsUp anchor up t₁ with ⟨e' | _, t₂⟩ <;> rfl
    | _ => rfl
  · rfl

theorem ensureDirsUp_grown (anchor : Path.Anchor) (up : List String) (t : Tree) :
    t.Grown (ensureDirsUp anchor up t).2 := by
  induction up generalizing t with
  | nil => exact ensureDir_grown
  | cons name up ih =>
    rw [ensureDirsUp_cons_apply]
    have hfirst : t.Grown (ensureDir ⟨anchor, (name :: up).reverse⟩ t).2 := ensureDir_grown
    split
    · next e t₁ h =>
      rw [h] at hfirst
      refine hfirst.trans ?_
      have hup := ih t₁
      split
      · exact .refl t₁
      · split
        · next t₂ h₂ =>
          rw [h₂] at hup
          exact hup.trans ensureDir_grown
        · next h₂ =>
          rw [h₂] at hup
          exact hup
    · next h =>
      rw [h] at hfirst
      exact hfirst

/-- Making directories adds directories to a tree, wherever it stops. -/
theorem ensureDirs_grown : t.Grown (ensureDirs p t).2 := ensureDirsUp_grown p.anchor _ t

end Action

end Sysroot.Tree

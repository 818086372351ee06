import Sysroot.Proofs.Install.CopyEach

/-!
# Undoing a copying

Undoing first clears the places that were filled (`clearCreated_spec`) and then brings back what
is in the stash, place by place (`restoreSaved_spec`).  From a tree that is `Recoverable` neither
is refused, and what is left of the copying are directories at places that were free
(`undo_spec`).
-/

namespace Sysroot.Install

open Sysroot.Tree Sysroot.Tree.Action

variable {T t t' : Tree} {root : Path} {R l : Location} {k : Nat} {a name : String}
  {x y front : List String} {filled moved places : List (List String)}

/-! ## Clearing one place -/

/-- Whether a tree is another one without what is at a location. -/
structure Cleared (l : Location) (t t' : Tree) : Prop where
  home : t'.home = t.home
  get? : ∀ m, t'.get? m = if m = l then none else t.get? m

namespace Cleared

theorem of_free (h : t.get? l = none) : Cleared l t t := by
  refine ⟨rfl, fun m => ?_⟩
  by_cases hm : m = l
  · rw [if_pos hm, hm, h]
  · rw [if_neg hm]

/-- Removing what is no directory clears one location. -/
theorem of_remove (hl : l ≠ []) (h : t.get? l ≠ some .dir) : Cleared l t (t.remove l) := by
  refine ⟨rfl, fun m => ?_⟩
  rw [get?_remove hl]
  by_cases hm : m = l
  · rw [if_pos hm, if_pos (hm ▸ List.prefix_rfl)]
  · rw [if_neg hm]
    split
    · next hpre =>
      obtain ⟨r, rfl⟩ := hpre
      refine (get?_append_eq_none h fun hr => hm ?_).symm
      rw [hr, List.append_nil]
    · rfl

theorem within (h : Cleared l t t') : t'.Within t := by
  intro m n hn
  rw [h.get?] at hn
  split at hn
  · cases hn
  · exact hn

theorem askable (h : Cleared l t t') (hask : t.Askable R) : t'.Askable R :=
  hask.of_links (fun m _ hm => ⟨m, h.within m _ hm⟩) fun y _ hy => ⟨y, h.within _ _ hy⟩

theorem get?_of_dir (h : Cleared l t t') (hl : t.get? l ≠ some .dir) {m : Location}
    (hm : t.get? m = some .dir) : t'.get? m = some .dir := by
  rw [h.get?, if_neg, hm]
  rintro rfl
  exact hl hm

theorem sameAround (h : Cleared (R ++ x) t t') (hx : x ≠ []) : SameAround R t t' := by
  refine ⟨h.home, fun m hm => ?_⟩
  rw [h.get?, if_neg]
  rintro rfl
  exact hx (List.append_right_eq_self.1 (hm (List.prefix_append R x)))

end Cleared

/-- Clears a place if there is something. -/
def clearPlace (place : Path) : Action Unit := do
  if ← ask (Tree.query · place Tree.occupies) then apply (Tree.unlink · place)

theorem clearPlace_apply (place : Path) (t : Tree) :
    clearPlace place t = match t.query place Tree.occupies with
      | .error e => (.error (.ofRefusal e), t)
      | .ok false => (.ok (), t)
      | .ok true => apply (Tree.unlink · place) t := by
  rw [clearPlace, Effect.bind_apply, ask_apply]
  rcases t.query place Tree.occupies with e | _ | _ <;> rfl

theorem clearCreated_cons (place : Path) (rest : List Path) :
    clearCreated (place :: rest) = clearPlace place >>= fun _ => clearCreated rest := by
  funext t
  rw [clearCreated, Effect.bind_apply, Effect.bind_apply, clearPlace, Effect.bind_apply, ask_apply]
  rcases t.query place Tree.occupies with e | _ | _
  · rfl
  · rfl
  · show (apply (Tree.unlink · place) >>= _) t = _
    rw [Effect.bind_apply]
    rfl

theorem restoreSaved_cons (place kept : Path) (rest : List (Path × Path)) :
    restoreSaved ((place, kept) :: rest) = clearPlace place >>= fun _ =>
      apply (Tree.rename · kept place) >>= fun _ => restoreSaved rest := by
  funext t
  rw [restoreSaved, Effect.bind_apply, Effect.bind_apply, clearPlace, Effect.bind_apply, ask_apply]
  rcases t.query place Tree.occupies with e | _ | _
  · rfl
  · rfl
  · show (apply (Tree.unlink · place) >>= _) t = _
    rw [Effect.bind_apply]
    rfl

/-- Whether a place can be cleared: it is in a directory and no directory itself, or it cannot be
reached. -/
def Clearable (t : Tree) (R : Location) (k : Nat) (x : List String) : Prop :=
  (t.get? (R ++ x.dropLast) = some .dir ∧ t.get? (R ++ x) ≠ some .dir) ∨
    ¬ LeadsToDir t R k x.dropLast

theorem Clearable.ne_dir (h : Clearable t R k x) (hx : IsPlace x) :
    t.get? (R ++ x) ≠ some .dir := by
  rcases h with ⟨-, hne⟩ | hleads
  · exact hne
  · intro hdir
    obtain ⟨front, name, rfl, -⟩ := hx.exists_concat
    rw [List.dropLast_concat] at hleads
    exact hleads (leadsToDir_of_get? (plain_append.1 hx.plain).1 (get?_of_concat hdir))

/-- Clearing a place is not refused. -/
theorem Clearable.clearPlace (h : Clearable t R k x) (hseat : Seat t root R k)
    (hnull : hasNull root.text = false) (hask : t.Askable R) (hx : IsPlace x)
    (hfits : Fits root x) :
    ∃ t', clearPlace (root.within x) t = (.ok (), t') ∧ Cleared (R ++ x) t t' := by
  have hne := h.ne_dir hx
  obtain ⟨front, name, rfl, -⟩ := hx.exists_concat
  rw [clearPlace_apply, hseat.query hask hx.ne_nil hx.plain hfits]
  rw [Clearable, List.dropLast_concat] at h
  rcases h with ⟨hdir, -⟩ | hleads
  · rw [hseat.occupies hx.plain (straight_of_dir hdir) hfits]
    rcases hnode : t.get? (R ++ (front ++ [name])) with _ | n
    · exact ⟨t, rfl, .of_free hnode⟩
    · have hn : n ≠ .dir := fun heq => hne (heq ▸ hnode)
      refine ⟨_, ?_, .of_remove (List.append_ne_nil_of_right_ne_nil R hx.ne_nil) hne⟩
      show apply _ t = _
      rw [apply_apply, hseat.unlink hnull hx.plain hfits hnode hn]
  · -- what cannot be reached is free
    have hdir : t.get? (R ++ front) ≠ some .dir := fun hdir =>
      hleads (leadsToDir_of_get? (plain_append.1 hx.plain).1 hdir)
    have hlocate : ∀ aim, ∃ e, t.locate (root.within (front ++ [name])) aim = .error e := by
      intro aim
      rw [hseat.locate hx.ne_nil hx.plain hfits]
      exact locateFrom_of_not_leads aim name hleads
    obtain ⟨e, he⟩ := hlocate .target
    obtain ⟨e', he'⟩ := hlocate .itself
    have hfree : t.occupies (root.within (front ++ [name])) = false := by
      rw [Tree.occupies, holds, isLink, node?, nodeItself?, he, he']
      rfl
    rw [hfree]
    exact ⟨t, rfl, .of_free (get?_concat_eq_none hdir)⟩

/-- A place can be cleared after another one was. -/
theorem Clearable.of_cleared (h : Clearable t R k x) (hcleared : Cleared l t t')
    (hl : t.get? l ≠ some .dir) : Clearable t' R k x := by
  rcases h with ⟨hdir, hne⟩ | hleads
  · refine .inl ⟨hcleared.get?_of_dir hl hdir, fun hno => hne ?_⟩
    exact hcleared.within _ _ hno
  · exact .inr fun hno => hleads (hno.of_within hcleared.within)

/-! ## Clearing the places that were filled -/

/-- Clearing places that can be cleared takes away what is there and nothing else. -/
theorem clearCreated_spec (hseat : Seat t root R k) (hnull : hasNull root.text = false)
    (hask : t.Askable R) (hplaces : ∀ x ∈ places, IsPlace x ∧ Fits root x ∧ Clearable t R k x) :
    ∃ t', clearCreated (places.map root.within) t = (.ok (), t') ∧ SameAround R t t' ∧
      t'.Askable R ∧ (∀ x ∈ places, t'.get? (R ++ x) = none) ∧
      ∀ m, (∀ x ∈ places, m ≠ R ++ x) → t'.get? m = t.get? m := by
  induction places generalizing t with
  | nil => exact ⟨t, rfl, .refl R t, hask, by simp, fun _ _ => rfl⟩
  | cons x places ih =>
    obtain ⟨hx, hfits, hclear⟩ := hplaces x List.mem_cons_self
    have hne := hclear.ne_dir hx
    obtain ⟨t₁, ht₁, hcleared⟩ := hclear.clearPlace hseat hnull hask hx hfits
    have haround := hcleared.sameAround hx.ne_nil
    obtain ⟨t', ht', haround', hask', hgone, hother⟩ :=
      ih (hseat.of_sameAround haround) (hcleared.askable hask) fun z hz => by
        obtain ⟨hz', hfits', hclear'⟩ := hplaces z (List.mem_cons_of_mem x hz)
        exact ⟨hz', hfits', hclear'.of_cleared hcleared hne⟩
    refine ⟨t', ?_, haround.trans haround', hask', ?_, ?_⟩
    · rw [List.map_cons, clearCreated_cons, Effect.bind_of_ok ht₁, ht']
    · intro z hz
      by_cases hmem : z ∈ places
      · exact hgone z hmem
      · obtain rfl := (List.mem_cons.1 hz).resolve_right hmem
        rw [hother, hcleared.get?, if_pos rfl]
        rintro z' hz' heq
        exact hmem (List.append_cancel_left heq ▸ hz')
    · intro m hm
      rw [hother m fun z hz => hm z (List.mem_cons_of_mem x hz), hcleared.get?,
        if_neg (hm x List.mem_cons_self)]

/-! ## Bringing back what was set aside -/

/-- What has to hold for what was set aside to return to its places. -/
structure Returnable (t : Tree) (root : Path) (R : Location) (a : String)
    (moved : List (List String)) : Prop where
  places : ∀ s ∈ moved, IsPlace s ∧ Fits root s ∧ Fits root (stash a ++ s)
  apart : moved.Pairwise fun s s' => ¬ s <+: s' ∧ ¬ s' <+: s
  room : ∀ s ∈ moved, t.get? (R ++ s.dropLast) = some .dir ∧ t.get? (R ++ s) ≠ some .dir
  kept : ∀ s ∈ moved, (t.get? (R ++ (stash a ++ s))).isSome = true

theorem plain_stash (ha : isName a = true) : Plain (stash a) := by
  rw [stash, plain_cons, plain_cons]
  exact ⟨by decide, ha, plain_nil⟩

/-- Bringing one thing back changes its place and where it was kept. -/
theorem Returnable.step (h : Returnable t root R a (x :: moved)) (hseat : Seat t root R k)
    (hnull : hasNull root.text = false) (ha : isName a = true) (hask : t.Askable R) :
    ∃ t₁ t₂, clearPlace (root.within x) t = (.ok (), t₁) ∧
      apply (Tree.rename · (root.within (stash a ++ x)) (root.within x)) t₁ = (.ok (), t₂) ∧
      SameAround R t t₂ ∧ t₂.Askable R ∧
      (∀ y, x <+: y → t₂.get? (R ++ y) = t.get? (R ++ (stash a ++ y))) ∧
      ∀ m, ¬ R ++ x <+: m → ¬ R ++ (stash a ++ x) <+: m → t₂.get? m = t.get? m := by
  obtain ⟨hx, hfits, hfits'⟩ := h.places x List.mem_cons_self
  obtain ⟨hdir, hne⟩ := h.room x List.mem_cons_self
  have hkept := h.kept x List.mem_cons_self
  obtain ⟨t₁, ht₁, hcleared⟩ :=
    Clearable.clearPlace (.inl ⟨hdir, hne⟩) hseat hnull hask hx hfits
  have hseat₁ := hseat.of_sameAround (hcleared.sameAround hx.ne_nil)
  have hdir₁ := hcleared.get?_of_dir hne hdir
  have hfree₁ : t₁.get? (R ++ x) = none := by rw [hcleared.get?, if_pos rfl]
  have hsame : ∀ y, t₁.get? (R ++ (stash a ++ y)) = t.get? (R ++ (stash a ++ y)) := fun y => by
    rw [hcleared.get?, if_neg fun heq => hx.ne_stash (List.append_cancel_left heq)]
  have hplain : Plain (stash a ++ x) := plain_append.2 ⟨plain_stash ha, hx.plain⟩
  have hrename : t₁.rename (root.within (stash a ++ x)) (root.within x) =
      .ok (t₁.move (R ++ (stash a ++ x)) (R ++ x)) := by
    obtain ⟨front, name, rfl, -⟩ := hx.exists_concat
    rw [List.dropLast_concat] at hdir₁
    have hassoc : stash a ++ (front ++ [name]) = stash a ++ front ++ [name] := by simp
    have hsome := (hsame (front ++ [name])).symm ▸ hkept
    have hbelow := hx.not_below_stash (a := a) (y := front ++ [name])
    have habove := hx.not_above_stash (a := a) (y := front ++ [name])
    rw [hassoc] at hplain hfits' hsome hbelow habove ⊢
    exact hseat₁.rename hnull hplain hx.plain hfits' hfits hsome hdir₁ hfree₁ hbelow habove
  have hcan : t₁.canMove (R ++ (stash a ++ x)) (R ++ x) = true := by
    obtain ⟨front, name, rfl, -⟩ := hx.exists_concat
    rw [List.dropLast_concat] at hdir₁
    have hbelow : ¬ R ++ (stash a ++ (front ++ [name])) <+: R ++ (front ++ [name]) := fun hpre =>
      hx.not_below_stash ((List.prefix_append_right_inj R).1 hpre)
    have habove : ¬ R ++ (front ++ [name]) <+: R ++ (stash a ++ (front ++ [name])) := fun hpre =>
      hx.not_above_stash ((List.prefix_append_right_inj R).1 hpre)
    rw [← List.append_assoc R front] at hbelow habove ⊢
    exact canMove_of_dir (List.append_ne_nil_of_right_ne_nil R (List.cons_ne_nil _ _)) hdir₁
      ((plain_append.1 hx.plain).2 name List.mem_cons_self) hbelow habove
  have hback : ∀ y, x <+: y → (t₁.move (R ++ (stash a ++ x)) (R ++ x)).get? (R ++ y) =
      t.get? (R ++ (stash a ++ y)) := by
    rintro y ⟨r, rfl⟩
    have hdrop : (R ++ (x ++ r)).drop (R ++ x).length = r := by
      rw [← List.append_assoc, List.drop_left]
    rw [get?_move hcan, if_pos ((List.prefix_append_right_inj R).2 (List.prefix_append x r)), hdrop,
      ← hsame]
    simp only [List.append_assoc]
  have hother : ∀ m, ¬ R ++ x <+: m → ¬ R ++ (stash a ++ x) <+: m →
      (t₁.move (R ++ (stash a ++ x)) (R ++ x)).get? m = t.get? m := by
    intro m hm hm'
    have hne : m ≠ R ++ x := by
      rintro rfl
      exact hm List.prefix_rfl
    rw [get?_move hcan, if_neg hm, if_neg hm', hcleared.get?, if_neg hne]
  refine ⟨t₁, _, ht₁, ?_, ⟨?_, fun m hm => ?_⟩, ?_, hback, hother⟩
  · rw [apply_apply, hrename]
  · rw [home_move, hcleared.home]
  · have hfar : ∀ z, z ≠ [] → ¬ R ++ z <+: m := by
      rintro z hz hpre
      rw [hm ((List.prefix_append R z).trans hpre)] at hpre
      exact hz (List.append_right_eq_self.1 (hpre.eq_of_length_le (by simp)))
    exact hother m (hfar x hx.ne_nil) (hfar _ (List.append_ne_nil_of_right_ne_nil _ hx.ne_nil))
  · refine (hcleared.askable hask).of_links (fun m target hm => ?_) fun y target hy => ?_
    · rw [get?_move hcan] at hm
      split at hm
      · exact ⟨_, hm⟩
      · split at hm
        · cases hm
        · exact ⟨m, hm⟩
    · rw [get?_move hcan, List.append_assoc] at hy
      split at hy
      · exact ⟨_, hy⟩
      · split at hy
        · cases hy
        · exact ⟨y, hy⟩

/-- Everything that was set aside can return, one after the other. -/
theorem restoreSaved_spec (h : Returnable t root R a moved) (hseat : Seat t root R k)
    (hnull : hasNull root.text = false) (ha : isName a = true) (hask : t.Askable R) :
    ∃ t', restoreSaved (moved.map fun s => (root.within s, root.within (stash a ++ s))) t =
        (.ok (), t') ∧ SameAround R t t' ∧ t'.Askable R ∧
      (∀ s ∈ moved, ∀ y, s <+: y → t'.get? (R ++ y) = t.get? (R ++ (stash a ++ y))) ∧
      ∀ m, (∀ s ∈ moved, ¬ R ++ s <+: m ∧ ¬ R ++ (stash a ++ s) <+: m) →
        t'.get? m = t.get? m := by
  induction moved generalizing t with
  | nil => exact ⟨t, rfl, .refl R t, hask, by simp, fun _ _ => rfl⟩
  | cons x moved ih =>
    obtain ⟨t₁, t₂, ht₁, ht₂, haround, hask₂, hback, hother⟩ :=
      h.step hseat hnull ha hask
    obtain ⟨hx, -, -⟩ := h.places x List.mem_cons_self
    obtain ⟨hapart, hrest⟩ := List.pairwise_cons.1 h.apart
    -- what is done at one place concerns no other
    have hfar : ∀ s ∈ moved, ∀ y, s <+: y → ¬ R ++ x <+: R ++ (stash a ++ y) ∧
        ¬ R ++ (stash a ++ x) <+: R ++ (stash a ++ y) := by
      intro s hs y hsy
      refine ⟨fun hpre => hx.not_above_stash ((List.prefix_append_right_inj R).1 hpre), fun hpre => ?_⟩
      have hxy : x <+: y :=
        (List.prefix_append_right_inj _).1 ((List.prefix_append_right_inj R).1 hpre)
      rcases List.prefix_or_prefix_of_prefix hxy hsy with hpre | hpre
      · exact (hapart s hs).1 hpre
      · exact (hapart s hs).2 hpre
    have hreturn : Returnable t₂ root R a moved := by
      refine ⟨fun s hs => h.places s (List.mem_cons_of_mem x hs), hrest,
        fun s hs => ?_, fun s hs => ?_⟩
      · have hs' := (h.places s (List.mem_cons_of_mem x hs)).1
        have hsame : ∀ z, z <+: s → t₂.get? (R ++ z) = t.get? (R ++ z) := by
          intro z hz
          refine hother _ (fun hpre => ?_) fun hpre => ?_
          · exact (hapart s hs).1 (((List.prefix_append_right_inj R).1 hpre).trans hz)
          · exact hs'.not_below_stash (((List.prefix_append_right_inj R).1 hpre).trans hz)
        rw [hsame _ (List.dropLast_prefix s), hsame s List.prefix_rfl]
        exact h.room s (List.mem_cons_of_mem x hs)
      · obtain ⟨hno, hno'⟩ := hfar s hs s List.prefix_rfl
        rw [hother _ hno hno']
        exact h.kept s (List.mem_cons_of_mem x hs)
    obtain ⟨t', ht', haround', hask', hback', hother'⟩ :=
      ih hreturn (hseat.of_sameAround haround) hask₂
    refine ⟨t', ?_, haround.trans haround', hask', ?_, ?_⟩
    · rw [List.map_cons, restoreSaved_cons, Effect.bind_of_ok ht₁, Effect.bind_of_ok ht₂, ht']
    · intro s hs y hsy
      rcases List.mem_cons.1 hs with rfl | hs
      · rw [hother', hback y hsy]
        intro s' hs'
        refine ⟨fun hpre => ?_, fun hpre => ?_⟩
        · rcases List.prefix_or_prefix_of_prefix ((List.prefix_append_right_inj R).1 hpre) hsy with
            hpre | hpre
          · exact (hapart s' hs').2 hpre
          · exact (hapart s' hs').1 hpre
        · exact hx.not_both hsy ((List.prefix_append (stash a) s').trans
            ((List.prefix_append_right_inj R).1 hpre))
      · obtain ⟨hno, hno'⟩ := hfar s hs y hsy
        rw [hback' s hs y hsy, hother _ hno hno']
    · intro m hm
      obtain ⟨hno, hno'⟩ := hm x List.mem_cons_self
      rw [hother' m fun s hs => hm s (List.mem_cons_of_mem x hs), hother m hno hno']

/-! ## Undoing everything -/

/-- Undoing a copying leaves everything outside the stash as it was, with new directories at
places that were free. -/
theorem undo_spec (h : Recoverable T t root R k a filled moved) (hseat : Seat T root R k)
    (hnull : hasNull root.text = false) (ha : isName a = true) :
    ∃ t', (undoOf root a filled moved).run t = (.ok (), t') ∧ SameAround R T t' ∧
      t'.get? (R ++ stash a) = some .dir ∧
      ∀ y, ¬ stash a <+: y → t'.get? (R ++ y) = T.get? (R ++ y) ∨
        (T.get? (R ++ y) = none ∧ t'.get? (R ++ y) = some .dir ∧ ∃ x, IsPlace x ∧ y <+: x) := by
  have hseat' := hseat.of_sameAround h.around
  obtain ⟨t₁, ht₁, haround₁, hask₁, hgone, hother⟩ :=
    clearCreated_spec (k := k) hseat' hnull h.askable fun c hc =>
      ⟨(h.places c (.inl hc)).1, (h.places c (.inl hc)).2, h.clear c hc⟩
  have hwithin : ∀ m n, t₁.get? m = some n → t.get? m = some n := by
    intro m n hn
    by_cases hm : ∃ c ∈ filled, m = R ++ c
    · obtain ⟨c, hc, rfl⟩ := hm
      rw [hgone c hc] at hn
      cases hn
    · push Not at hm
      rwa [hother m hm] at hn
  have hdir : ∀ m, t.get? m = some .dir → t₁.get? m = some .dir := by
    intro m hm
    rw [hother m, hm]
    rintro c hc rfl
    exact Clearable.ne_dir (h.clear c hc) (h.places c (.inl hc)).1 hm
  have hstash : ∀ y, t₁.get? (R ++ (stash a ++ y)) = t.get? (R ++ (stash a ++ y)) := fun y =>
    hother _ fun c hc heq => (h.places c (.inl hc)).1.ne_stash (List.append_cancel_left heq)
  have hreturn : Returnable t₁ root R a moved := by
    refine ⟨fun s hs => ⟨(h.places s (.inr hs)).1, (h.places s (.inr hs)).2, h.fits s hs⟩, h.apart,
      fun s hs => ⟨hdir _ (h.room s hs).1, fun hno => (h.room s hs).2 (hwithin _ _ hno)⟩,
      fun s hs => ?_⟩
    rw [hstash, h.kept s hs s List.prefix_rfl]
    exact h.was s hs
  obtain ⟨t₂, ht₂, haround₂, -, hback, hother₂⟩ :=
    restoreSaved_spec hreturn (hseat'.of_sameAround haround₁) hnull ha hask₁
  refine ⟨t₂, ?_, (h.around.trans haround₁).trans haround₂, ?_, fun y hy => ?_⟩
  · rw [Undo.run, undoOf, Effect.bind_of_ok ht₁]
    exact ht₂
  · rw [hother₂, hdir _ h.base]
    intro s hs
    have hs' := (h.places s (.inr hs)).1
    refine ⟨fun hpre => hs'.not_above_stash (a := a) (y := []) ?_, fun hpre => hs'.ne_nil ?_⟩
    · rw [List.append_nil]
      exact (List.prefix_append_right_inj R).1 hpre
    · have hlen := ((List.prefix_append_right_inj R).1 hpre).length_le
      rw [List.length_append] at hlen
      exact List.length_eq_zero_iff.1 (by omega)
  · by_cases hmoved : ∃ s ∈ moved, s <+: y
    · obtain ⟨s, hs, hsy⟩ := hmoved
      rw [hback s hs y hsy, hstash, h.kept s hs y hsy]
      exact .inl rfl
    push Not at hmoved
    rw [hother₂]
    · by_cases hfilled : y ∈ filled
      · rw [hgone y hfilled, h.free y hfilled hmoved]
        exact .inl rfl
      · have hsame : t₁.get? (R ++ y) = t.get? (R ++ y) := hother _ fun c hc heq =>
          hfilled (List.append_cancel_left heq ▸ hc)
        rw [hsame]
        rcases h.others y hfilled hmoved hy with heq | ⟨hT, ht, x, hx, hyx⟩
        · exact .inl heq
        · exact .inr ⟨hT, ht, x, (h.places x hx).1, hyx⟩
    · intro s hs
      refine ⟨fun hpre => hmoved s hs ((List.prefix_append_right_inj R).1 hpre), fun hpre => hy ?_⟩
      exact (List.prefix_append (stash a) s).trans ((List.prefix_append_right_inj R).1 hpre)

end Sysroot.Install

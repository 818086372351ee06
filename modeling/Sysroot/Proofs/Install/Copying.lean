import Sysroot.Install.Transaction
import Sysroot.Proofs.Tree.Paving

/-!
# One step of the copying

Copying a source to a free place paves the way to it and puts a file or a link there, or is
refused with at most the way paved (`Seat.copyTo`).  Setting aside what is at a place brings it
to where it is kept (`Seat.setAside`).
-/

namespace Sysroot.Tree

variable {t t' : Tree} {root source : Path} {R l : Location} {k : Nat} {front : List String}
  {name : String}

open Sysroot.Tree.Action

/-! ## Filling a free place -/

theorem canSet_of_free (hplain : Plain (front ++ [name])) {n : Node}
    (hdir : t.get? (R ++ front) = some .dir)
    (hfree : t.get? (R ++ (front ++ [name])) ≠ some .dir) :
    t.canSet (R ++ (front ++ [name])) n = true := by
  rw [← List.append_assoc] at hfree ⊢
  exact canSet_of_dir hdir ((plain_append.1 hplain).2 name List.mem_cons_self) (.inr hfree)

/-- A link is made at a free place, or refused. -/
theorem Seat.makeLink (h : Seat t root R k) (hnull : hasNull root.text = false) {target : String}
    (htarget : hasNull target = false) (hplain : Plain (front ++ [name]))
    (hfits : Fits root (front ++ [name])) (hdir : t.get? (R ++ front) = some .dir)
    (hfree : t.get? (R ++ (front ++ [name])) = none) :
    (∃ e, t.makeLink target (root.within (front ++ [name])) = .error e ∧ e ≠ .nullCharacter) ∨
    ∃ t', t.makeLink target (root.within (front ++ [name])) = .ok t' ∧
      Added (R ++ (front ++ [name])) (.link target) t t' := by
  have hnull' : hasNull (root.within (front ++ [name])).text = false :=
    (Path.hasNull_within hplain).trans hnull
  rw [Tree.makeLink]
  simp only [htarget, hnull', Bool.or_self, Bool.false_eq_true, if_false]
  by_cases hempty : target = ""
  · rw [if_pos hempty]
    exact .inl ⟨_, rfl, SystemError.noConfusion⟩
  rw [if_neg hempty]
  by_cases hlong : textLimit < target.utf8ByteSize
  · rw [if_pos hlong]
    exact .inl ⟨_, rfl, SystemError.noConfusion⟩
  rw [if_neg hlong, h.placeOr hnull hplain hfits hdir (.inl rfl)]
  have hcan : t.canSet (R ++ (front ++ [name])) (.link target) = true :=
    canSet_of_free hplain hdir (by simp [hfree])
  refine .inr ⟨_, ?_, added_set hcan⟩
  simp [bind, Except.bind, hfree, pure, Except.pure]

/-- What a path without a NUL is refused for has a number. -/
theorem contentOf_error (hsource : hasNull source.text = false) {e : SystemError}
    (h : t.contentOf source = .error e) : e ≠ .nullCharacter := by
  rw [contentOf, place, placeOr, hsource] at h
  rcases hlocate : t.locate source with reason | l
  · rw [hlocate] at h
    cases h
    exact SystemError.noConfusion
  · rw [hlocate] at h
    simp only [Bool.false_eq_true, if_false, Except.mapError, bind, Except.bind] at h
    split at h
    · cases h
    · cases h
      exact SystemError.noConfusion
    · cases h
      exact SystemError.noConfusion

/-- Whether what is at a place is a file that may be run. -/
def mayRun : Option Node → Bool
  | some (.file _ executable) => executable
  | _ => false

/-- A file is written where there is none or one, and keeps its permission to be run. -/
theorem Seat.writeFile (h : Seat t root R k) (hnull : hasNull root.text = false)
    (hplain : Plain (front ++ [name])) (hfits : Fits root (front ++ [name]))
    (hdir : t.get? (R ++ front) = some .dir)
    (hlink : ∀ target, t.get? (R ++ (front ++ [name])) ≠ some (.link target))
    (content : List UInt8) :
    (t.get? (R ++ (front ++ [name])) = some .dir ∧
      t.writeFile (root.within (front ++ [name])) content =
        .error (.refused .isDirectory (root.within (front ++ [name])).text)) ∨
    ∃ t', t.writeFile (root.within (front ++ [name])) content = .ok t' ∧
      Added (R ++ (front ++ [name]))
        (.file content (mayRun (t.get? (R ++ (front ++ [name]))))) t t' := by
  rw [Tree.writeFile, place, h.placeOr hnull hplain hfits hdir (.inr hlink)]
  rcases hnode : t.get? (R ++ (front ++ [name])) with _ | (⟨old, executable⟩ | target | _)
  · have hcan : t.canSet (R ++ (front ++ [name])) (.file content false) = true :=
      canSet_of_free hplain hdir (by simp [hnode])
    exact .inr ⟨_, by simp [bind, Except.bind, hnode, pure, Except.pure, mayRun], added_set hcan⟩
  · have hcan : t.canSet (R ++ (front ++ [name])) (.file content executable) = true :=
      canSet_of_free hplain hdir (by simp [hnode])
    exact .inr ⟨_, by simp [bind, Except.bind, hnode, pure, Except.pure, mayRun], added_set hcan⟩
  · exact absurd hnode (hlink target)
  · exact .inl ⟨rfl, by simp [bind, Except.bind, hnode, throw, throwThe, MonadExceptOf.throw]⟩

theorem Seat.writeFile_of_free (h : Seat t root R k) (hnull : hasNull root.text = false)
    (hplain : Plain (front ++ [name])) (hfits : Fits root (front ++ [name]))
    (hdir : t.get? (R ++ front) = some .dir) (hfree : t.get? (R ++ (front ++ [name])) = none)
    (content : List UInt8) :
    ∃ t', t.writeFile (root.within (front ++ [name])) content = .ok t' ∧
      Added (R ++ (front ++ [name])) (.file content false) t t' := by
  have hcan : t.canSet (R ++ (front ++ [name])) (.file content false) = true :=
    canSet_of_free hplain hdir (by simp [hfree])
  refine ⟨_, ?_, added_set hcan⟩
  rw [Tree.writeFile, place,
    h.placeOr hnull hplain hfits hdir (.inr fun _ => by simp [hfree])]
  simp [bind, Except.bind, hfree, pure, Except.pure]

theorem Seat.permit_of_file (h : Seat t root R k) (hnull : hasNull root.text = false)
    (hplain : Plain (front ++ [name])) (hfits : Fits root (front ++ [name]))
    {content : List UInt8} {executable : Bool}
    (hfile : t.get? (R ++ (front ++ [name])) = some (.file content executable)) (may : Bool) :
    ∃ t', t.permit (root.within (front ++ [name])) may = .ok t' ∧
      Added (R ++ (front ++ [name])) (.file content may) t t' := by
  have hdir := get?_of_concat hfile
  have hcan : t.canSet (R ++ (front ++ [name])) (.file content may) = true :=
    canSet_of_free hplain hdir (by simp [hfile])
  refine ⟨_, ?_, added_set hcan⟩
  rw [permit, place, h.placeOr hnull hplain hfits hdir (.inr fun _ => by simp [hfile])]
  simp [bind, Except.bind, hfile, pure, Except.pure]

/-- Whether a node is a copy of what is at a path: of a link the link itself, else of the file that
the path leads to. -/
inductive IsCopy (t : Tree) (source : Path) : Node → Prop where
  | link {target : String} (h : t.nodeItself? source = some (.link target)) :
      IsCopy t source (.link target)
  | file {content : List UInt8} (h : t.contentOf source = .ok content) :
      IsCopy t source (.file content (t.isProgram source))

theorem IsCopy.ne_dir {n : Node} (h : IsCopy t source n) : n ≠ .dir := by
  cases h <;> exact nofun

theorem IsCopy.of_link {target : String} (h : IsCopy t source (.link target)) :
    t.nodeItself? source = some (.link target) := by
  cases h with
  | link h => exact h

/-- A file is copied to a free place, or refused. -/
theorem Seat.copyFile (h : Seat t root R k) (hnull : hasNull root.text = false)
    (hsource : hasNull source.text = false) (hplain : Plain (front ++ [name]))
    (hfits : Fits root (front ++ [name])) (hdir : t.get? (R ++ front) = some .dir)
    (hfree : t.get? (R ++ (front ++ [name])) = none) :
    (∃ e, t.copyFile source (root.within (front ++ [name])) = .error e ∧ e ≠ .nullCharacter) ∨
    ∃ t' content, t.copyFile source (root.within (front ++ [name])) = .ok t' ∧
      t.contentOf source = .ok content ∧
      Added (R ++ (front ++ [name])) (.file content (t.isProgram source)) t t' := by
  have hnull' : hasNull (root.within (front ++ [name])).text = false :=
    (Path.hasNull_within hplain).trans hnull
  have hnot : t.isDir (root.within (front ++ [name])) = false := by
    rw [isDir, node?, h.locate (concat_ne_nil front name) hplain hfits,
      locateFrom_concat hplain hdir (.inr fun _ => by simp [hfree])]
    simp [hfree]
  rw [Tree.copyFile]
  simp only [hnot, Bool.false_eq_true, if_false, hsource, hnull', Bool.or_self]
  by_cases hsame : t.sameNode source (root.within (front ++ [name])) = true
  · rw [if_pos hsame]
    exact .inl ⟨_, rfl, SystemError.noConfusion⟩
  rw [if_neg hsame]
  rcases hcontent : t.contentOf source with e | content
  · exact .inl ⟨e, rfl, contentOf_error hsource hcontent⟩
  obtain ⟨t₁, hwrite, hadd⟩ := h.writeFile_of_free hnull hplain hfits hdir hfree content
  have hseat := h.of_sameAround (hadd.sameAround (concat_ne_nil front name))
  obtain ⟨t₂, hpermit, hadd'⟩ := hseat.permit_of_file hnull hplain hfits
    ((hadd.get? _).trans (if_pos rfl)) (t.isProgram source)
  refine .inr ⟨t₂, content, ?_, rfl, hadd.trans hadd'⟩
  simp only [bind, Except.bind, hwrite]
  exact hpermit

end Sysroot.Tree

namespace Sysroot.Install

open Sysroot.Tree Sysroot.Tree.Action

variable {t t' : Tree} {root source : Path} {R : Location} {k : Nat} {front : List String}
  {name : String}

theorem copyTo_apply (place : Path) (t : Tree) :
    copyTo source place t = match ensureDirs place.parent t with
      | (.error fault, t₁) => (.error fault, t₁)
      | (.ok (), t₁) => match t₁.nodeItself? source with
        | some (.link target) => apply (Tree.makeLink · target place) t₁
        | _ => apply (Tree.copyFile · source place) t₁ := by
  rw [copyTo, Effect.bind_apply]
  rcases ensureDirs place.parent t with ⟨e | _, t₁⟩
  · rfl
  · show (see (Tree.nodeItself? · source) >>= _) t₁ = _
    rw [Effect.bind_of_ok (see_apply _ t₁)]
    simp only []
    generalize t₁.nodeItself? source = node
    rcases node with _ | (_ | _ | _) <;> rfl

/-- Copying to a free place fills it with a copy of the source, after paving the way to it, or is
refused. -/
theorem copyTo_spec (h : Seat t root R k) (hnull : hasNull root.text = false)
    (hsource : hasNull source.text = false)
    (htarget : ∀ t₁ target, Paved R front t t₁ → t₁.nodeItself? source = some (.link target) →
      hasNull target = false) (hfront : front ≠ [])
    (hplain : Plain (front ++ [name])) (hfits : Fits root (front ++ [name]))
    (hstraight : Straight t R k front) (hfree : t.get? (R ++ (front ++ [name])) = none) :
    (∃ e t', copyTo source (root.within (front ++ [name])) t = (.error (.system e), t') ∧
      (t' = t ∨ Paved R front t t')) ∨
    ∃ t₁ t' n, copyTo source (root.within (front ++ [name])) t = (.ok (), t') ∧
      Paved R front t t₁ ∧ Added (R ++ (front ++ [name])) n t₁ t' ∧ IsCopy t₁ source n := by
  obtain ⟨first, rest, hcons⟩ := List.exists_cons_of_ne_nil hfront
  have hpave := h.ensureDirs hnull (hcons ▸ (plain_append.1 hplain).1) (hcons ▸ hstraight)
  rw [← hcons] at hpave
  rw [copyTo_apply, Path.parent_within]
  rcases hpave with ⟨e, he⟩ | ⟨t₁, ht₁, hpaved⟩
  · rw [he]
    exact .inl ⟨e, t, rfl, .inl rfl⟩
  have hseat := h.of_sameAround (hpaved.sameAround h.dir)
  have hfree₁ : t₁.get? (R ++ (front ++ [name])) = none := by
    rw [hpaved.get?_of_not_above, hfree]
    rw [← List.append_assoc]
    exact concat_not_above _ _
  rw [ht₁]
  simp only []
  split
  · next target hlink =>
    have htarget' := htarget t₁ target hpaved hlink
    rw [apply_apply]
    rcases hseat.makeLink hnull htarget' hplain hfits hpaved.dir hfree₁ with
      ⟨e, he, hne⟩ | ⟨t₂, ht₂, hadd⟩
    · rw [he]
      cases e with
      | nullCharacter => exact absurd rfl hne
      | _ => exact .inl ⟨_, t₁, rfl, .inr hpaved⟩
    · rw [ht₂]
      exact .inr ⟨t₁, t₂, .link target, rfl, hpaved, hadd, .link hlink⟩
  · rw [apply_apply]
    rcases hseat.copyFile hnull hsource hplain hfits hpaved.dir hfree₁ with
      ⟨e, he, hne⟩ | ⟨t₂, content, ht₂, hcontent, hadd⟩
    · rw [he]
      cases e with
      | nullCharacter => exact absurd rfl hne
      | _ => exact .inl ⟨_, t₁, rfl, .inr hpaved⟩
    · rw [ht₂]
      exact .inr ⟨t₁, t₂, _, rfl, hpaved, hadd, .file hcontent⟩

/-! ## Setting aside -/

theorem setAside_apply (place kept : Path) (t : Tree) :
    setAside place kept t = match t.query place Tree.occupies with
      | .error e => (.error (.ofRefusal e), t)
      | .ok false => (.ok none, t)
      | .ok true => match ensureDirs kept.parent t with
        | (.error fault, t₁) => (.error fault, t₁)
        | (.ok (), t₁) => match t₁.rename place kept with
          | .error e => (.error (.ofRefusal e), t₁)
          | .ok t₂ => (.ok (some kept), t₂) := by
  rw [setAside, Effect.bind_apply, ask_apply]
  rcases t.query place Tree.occupies with e | _ | _
  · rfl
  · rfl
  · show (ensureDirs kept.parent >>= _) t = _
    rw [Effect.bind_apply]
    rcases ensureDirs kept.parent t with ⟨e | _, t₁⟩
    · rfl
    · show (apply (Tree.rename · place kept) >>= _) t₁ = _
      rw [Effect.bind_apply, apply_apply]
      simp only []
      generalize t₁.rename place kept = result
      rcases result with e | t₂ <;> rfl

/-- Setting aside what is at a place brings it below the stash, after paving the way there, or is
refused; nothing happens when there is nothing. -/
theorem setAside_spec (h : Seat t root R k) (hnull : hasNull root.text = false)
    (hask : t.Askable R) {stash : List String} (hstash : stash ≠ []) (hplain' : Plain stash)
    (hplain : Plain (front ++ [name])) (hstraight : Straight t R k front)
    (hready : (t.get? (R ++ (front ++ [name]))).isSome = true →
      Straight t R k (stash ++ front) ∧ t.get? (R ++ (stash ++ (front ++ [name]))) = none)
    (hbelow : ¬ front ++ [name] <+: stash ++ (front ++ [name]))
    (habove : ¬ stash ++ (front ++ [name]) <+: front ++ [name]) :
    (∃ e t', setAside (root.within (front ++ [name])) (root.within (stash ++ (front ++ [name]))) t =
        (.error (.system e), t') ∧ (t' = t ∨
          (t.get? (R ++ (front ++ [name]))).isSome = true ∧ Paved R (stash ++ front) t t')) ∨
    (setAside (root.within (front ++ [name])) (root.within (stash ++ (front ++ [name]))) t =
        (.ok none, t) ∧ Fits root (front ++ [name]) ∧ t.get? (R ++ (front ++ [name])) = none) ∨
    ∃ t₁, setAside (root.within (front ++ [name])) (root.within (stash ++ (front ++ [name]))) t =
        (.ok (some (root.within (stash ++ (front ++ [name])))),
          t₁.move (R ++ (front ++ [name])) (R ++ (stash ++ (front ++ [name])))) ∧
      Fits root (front ++ [name]) ∧ Fits root (stash ++ (front ++ [name])) ∧
      (t.get? (R ++ (front ++ [name]))).isSome = true ∧ Paved R (stash ++ front) t t₁ := by
  rw [setAside_apply]
  by_cases hfits : Fits root (front ++ [name])
  swap
  · rw [query_of_not_fits hnull hplain hfits]
    exact .inl ⟨_, t, rfl, .inl rfl⟩
  rw [h.query hask (concat_ne_nil front name) hplain hfits, h.occupies hplain hstraight hfits]
  rcases hsome : (t.get? (R ++ (front ++ [name]))).isSome with _ | _
  · exact .inr (.inl ⟨rfl, hfits, by simpa using hsome⟩)
  · obtain ⟨hstraight', hfree'⟩ := hready hsome
    simp only []
    have hparent : (root.within (stash ++ (front ++ [name]))).parent =
        root.within (stash ++ front) := by
      rw [← List.append_assoc]
      exact Path.parent_within
    obtain ⟨first, rest, hcons⟩ :=
      List.exists_cons_of_ne_nil (List.append_ne_nil_of_left_ne_nil hstash front)
    have hway : Plain (stash ++ front) := plain_append.2 ⟨hplain', (plain_append.1 hplain).1⟩
    have hpave := h.ensureDirs hnull (hcons ▸ hway) (hcons ▸ hstraight')
    rw [← hcons] at hpave
    rw [hparent]
    rcases hpave with ⟨e, he⟩ | ⟨t₁, ht₁, hpaved⟩
    · rw [he]
      exact .inl ⟨e, t, rfl, .inl rfl⟩
    rw [ht₁]
    simp only []
    -- paving the way to the stash changes neither place
    have hsame : t₁.get? (R ++ (front ++ [name])) = t.get? (R ++ (front ++ [name])) := by
      refine hpaved.get?_of_not_above fun hpre => hbelow ?_
      refine ((List.prefix_append_right_inj R).1 hpre).trans ?_
      rw [← List.append_assoc]
      exact List.prefix_append _ _
    have hfree₁ : t₁.get? (R ++ (stash ++ front ++ [name])) = none := by
      rw [List.append_assoc, hpaved.get?_of_not_above, hfree']
      rw [← List.append_assoc, ← List.append_assoc, List.append_assoc R]
      exact concat_not_above _ _
    have hseat := h.of_sameAround (hpaved.sameAround h.dir)
    by_cases hfits' : Fits root (stash ++ (front ++ [name]))
    · have hplain'' : Plain (stash ++ front ++ [name]) := by
        rw [List.append_assoc]
        exact plain_append.2 ⟨hplain', hplain⟩
      have hrename := hseat.rename hnull hplain hplain'' hfits (by simpa using hfits')
        (hsame ▸ hsome)
        hpaved.dir hfree₁ (by simpa using hbelow) (by simpa using habove)
      rw [List.append_assoc] at hrename
      rw [hrename]
      exact .inr (.inr ⟨t₁, rfl, hfits, hfits', trivial, hpaved⟩)
    · have hrefused : t₁.rename (root.within (front ++ [name]))
          (root.within (stash ++ (front ++ [name]))) = .error (.refusedPair .nameTooLong
            (root.within (front ++ [name])).text
            (root.within (stash ++ (front ++ [name]))).text) := by
        have hplain'' : Plain (stash ++ (front ++ [name])) := plain_append.2 ⟨hplain', hplain⟩
        have hnull' : hasNull (root.within (stash ++ (front ++ [name]))).text = false :=
          (Path.hasNull_within hplain'').trans hnull
        have hdir : t₁.get? (R ++ front) = some .dir := by
          obtain ⟨n, hn⟩ := Option.isSome_iff_exists.1 hsome
          exact get?_of_concat (hsame.trans hn)
        rw [Tree.rename]
        simp only [hnull', Bool.false_eq_true, if_false]
        rw [hseat.placeOr hnull hplain hfits hdir (.inl rfl), placeOr_within hnull hplain'',
          locate_of_not_fits hfits']
        rfl
      rw [hrefused]
      exact .inl ⟨_, t₁, rfl, .inr ⟨trivial, hpaved⟩⟩

end Sysroot.Install

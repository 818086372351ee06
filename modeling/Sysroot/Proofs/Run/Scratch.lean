import Sysroot.Proofs.Install.Feasible
import Sysroot.Proofs.Run.Turns
import Sysroot.Proofs.Tree.Pointwise

/-!
# Scratch directories

Before a library is built its scratch directory is made, without a stage in it, and cleared first if
the settings ask for it.  `Run.prepareScratch_ok` says what is at every location afterwards, and
`Run.prepareScratch_again` that nothing stands in the way when there are only directories to begin
with.
-/

namespace Sysroot

open Effect Sysroot.Tree Sysroot.Tree.Action Sysroot.Install

/-! ## What is asked and removed -/

namespace Tree

variable {t t' : Tree} {root : Path} {R : Location} {k : Nat} {names front : List String} {name : String}

/-- A path that can be asked about is short enough. -/
theorem Seat.fits_of_query (h : Seat t root R k) (hplain : Plain names) {answer : Tree → Path → Bool}
    {b : Bool} (hquery : t.query (root.within names) answer = .ok b) : Fits root names := by
  by_contra hfits
  rw [query_of_not_fits h.null hplain hfits] at hquery
  cases hquery

/-- Where nothing is there is nothing below. -/
theorem Seat.get?_of_not_holds (h : Seat t root R k) (hlinks : NoLinks t R) (hne : names ≠ [])
    (hplain : Plain names) (hquery : t.query (root.within names) Tree.holds = .ok false)
    (y : List String) : t.get? (R ++ names ++ y) = none := by
  have hfits := h.fits_of_query hplain hquery
  rw [h.query hlinks.askable hne hplain hfits] at hquery
  rcases hnode : t.get? (R ++ names) with _ | n
  · by_cases hy : y = []
    · rw [hy, List.append_nil, hnode]
    · exact get?_append_eq_none (by rw [hnode]; exact nofun) hy
  · rw [Tree.holds, (h.node?_eq_some hlinks hne hplain.descending).2 ⟨hfits, hnode⟩] at hquery
    cases hquery

/-- A directory below a seat can be asked about and removed. -/
theorem Seat.removeTree (h : Seat t root R k) (hplain : Plain (front ++ [name]))
    (hfits : Fits root (front ++ [name])) (hdir : t.get? (R ++ (front ++ [name])) = some .dir) :
    ∃ t', t.removeTree (root.within (front ++ [name])) = .ok t' := by
  have hplace : t.placeOr (root.within (front ++ [name])) .itself
      (fun reason => .refused reason (root.within (front ++ [name])).text) =
        .ok (R ++ (front ++ [name])) :=
    h.placeOr h.null hplain hfits (get?_of_concat hdir) (.inl rfl)
  refine ⟨t.remove (R ++ (front ++ [name])), ?_⟩
  rw [Tree.removeTree, place, hplace]
  simp [bind, Except.bind, hdir, pure, Except.pure]

end Tree

namespace Run

variable {σ : Type} {s : Site} {l : Library} {e : Catalog.Entry} {plan : Plan} {b b' : Bench σ}
  {root : Path} {B : Location} {j : Nat} {names front : List String} {name : String}

/-! ## Success -/

/-- A refusal that is turned into a cause leaves the success as it is. -/
theorem onRefusal_ok {α : Type} {x : Tree.Action α} {cause : SystemError → Cause} {a : α}
    (h : Work.onTree (onRefusal x fun e => Tree.Action.fail (cause e)) b = (.ok a, b')) :
    x b.tree = (.ok a, b'.tree) ∧ b' = { b with tree := b'.tree } := by
  obtain ⟨htree, hsame⟩ := Work.onTree_eq h
  rw [onRefusal_apply] at htree
  split at htree
  · cases htree
  · next hx => exact ⟨hx.trans htree, hsame⟩

/-- What succeeds on the tree of a bench succeeds on the bench. -/
theorem onRefusal_of_ok {α : Type} {x : Tree.Action α} {cause : SystemError → Cause} {a : α}
    {t : Tree} (h : x b.tree = (.ok a, t)) :
    Work.onTree (onRefusal x fun e => Tree.Action.fail (cause e)) b =
      (.ok a, { b with tree := t }) := by
  rw [Work.onTree, onRefusal_apply, h]

/-- What is asked about the tree does not change the bench. -/
theorem asked_ok {α : Type} {f : Tree → Except SystemError α} {cause : SystemError → Cause} {a : α}
    (h : Work.onTree (onRefusal (ask f) fun e => Tree.Action.fail (cause e)) b = (.ok a, b')) :
    f b.tree = .ok a ∧ b' = b := by
  obtain ⟨hask, hsame⟩ := onRefusal_ok h
  rw [ask_apply] at hask
  split at hask
  · next hf =>
    obtain ⟨hresult, htree⟩ := Prod.mk.inj hask
    rw [← htree] at hsame
    exact ⟨hf.trans (congrArg _ (Except.ok.inj hresult)), hsame⟩
  · cases hask

theorem asked_of_ok {α : Type} {f : Tree → Except SystemError α} {cause : SystemError → Cause} {a : α}
    (h : f b.tree = .ok a) :
    Work.onTree (onRefusal (ask f) fun e => Tree.Action.fail (cause e)) b = (.ok a, b) :=
  onRefusal_of_ok (by rw [ask_apply, h])

/-! ## Removing what is there -/

/-- Removes what is at a path, if there is anything. -/
def clearAt (p : Path) (cause : SystemError → Cause) (events : List Event) : Work σ Unit := do
  if ← Work.onTree (onRefusal (ask (Tree.query · p Tree.holds)) fun e =>
      Tree.Action.fail (cause e)) then
    Work.onTree (onRefusal (Tree.Action.apply (Tree.removeTree · p)) fun e =>
      Tree.Action.fail (cause e))
    events.forM Work.note

theorem notes_apply (events : List Event) (b : Bench σ) :
    (events.forM Work.note : Work σ Unit) b = (.ok (), { b with journal := b.journal ++ events }) := by
  induction events generalizing b with
  | nil => rw [List.append_nil]; rfl
  | cons event events ih =>
    have hnote : (Work.note event : Work σ Unit) b = (.ok (), b.note event) := rfl
    show (Work.note event >>= fun _ => events.forM Work.note) b = _
    rw [bind_of_ok hnote, ih, Bench.note, List.append_assoc, List.singleton_append]

section

variable {cause : SystemError → Cause} {events : List Event} (hseat : Seat b.tree root B j)
  (hlinks : NoLinks b.tree B)

include hseat hlinks

theorem clearAt_ok (hne : names ≠ []) (hplain : Plain names)
    (hok : clearAt (root.within names) cause events b = (.ok (), b')) :
    Fits root names ∧ ChangedBelow root B j b.tree b'.tree ∧
      ∀ m, b'.tree.get? m = if B ++ names <+: m then none else b.tree.get? m := by
  obtain ⟨there, b₁, hask, hrest⟩ := bind_ok hok
  obtain ⟨hquery, rfl⟩ := asked_ok hask
  refine ⟨hseat.fits_of_query hplain hquery, ?_⟩
  cases there with
  | true =>
    obtain ⟨⟨⟩, b₂, hremove, hnotes⟩ := bind_ok hrest
    rw [notes_apply] at hnotes
    cases hnotes
    have hremove := (onRefusal_ok hremove).1
    have hchanged : ChangedBelow root B j b₁.tree b₂.tree :=
      (staysBelow_removeTree ⟨_, hne, hplain.descending, rfl⟩).of_apply hremove fun _ _ => trivial
    rw [apply_apply] at hremove
    split at hremove
    · next t hgone =>
      cases hremove
      exact ⟨hchanged, hseat.removeTree_ok hlinks hne hplain.descending hgone⟩
    · cases hremove
  | false =>
    cases hrest
    refine ⟨Std.Refl.refl _, fun m => ?_⟩
    split
    · next hbelow =>
      obtain ⟨y, rfl⟩ := hbelow
      exact hseat.get?_of_not_holds hlinks hne hplain hquery y
    · rfl

theorem clearAt_again (hplain : Plain (front ++ [name])) (hfits : Fits root (front ++ [name]))
    (hdir : b.tree.get? (B ++ (front ++ [name])) = none ∨
      b.tree.get? (B ++ (front ++ [name])) = some .dir) :
    ∃ t' es, clearAt (root.within (front ++ [name])) cause events b =
      (.ok (), { b with tree := t', journal := b.journal ++ es }) := by
  have hquery : b.tree.query (root.within (front ++ [name])) Tree.holds =
      .ok (b.tree.holds (root.within (front ++ [name]))) :=
    hseat.query hlinks.askable (concat_ne_nil front name) hplain hfits
  rw [clearAt, bind_of_ok (asked_of_ok hquery)]
  rcases hholds : b.tree.holds (root.within (front ++ [name])) with _ | _
  · exact ⟨b.tree, [], by simp⟩
  · have hdir : b.tree.get? (B ++ (front ++ [name])) = some .dir := by
      refine hdir.resolve_left fun hnone => ?_
      obtain ⟨n, hn⟩ := Option.isSome_iff_exists.1 hholds
      rw [((hseat.node?_eq_some hlinks (concat_ne_nil front name) hplain.descending).1 hn).2] at hnone
      cases hnone
    obtain ⟨t', hremove⟩ := hseat.removeTree hplain hfits hdir
    have happly : Tree.Action.apply (Tree.removeTree · (root.within (front ++ [name]))) b.tree =
        (.ok (), t') := by rw [apply_apply, hremove]
    refine ⟨t', events, ?_⟩
    rw [if_pos rfl, bind_of_ok (onRefusal_of_ok happly), notes_apply]

end

/-- A scratch directory is cleared if the settings ask for it, and made, and its stage is removed. -/
theorem prepareScratch_eq (s : Site) (l : Library) (plan : Plan) :
    (prepareScratch s l plan : Work σ Unit) =
      (if l ∈ s.settings.clobber then
        clearAt plan.scratchDir (.scratchBlocked l plan.scratchDir.text ·)
          [.clobbered l plan.scratchDir]
      else pure ()) >>= fun _ =>
      Work.onTree (onRefusal (ensureDirs plan.scratchDir) fun e =>
        Tree.Action.fail (.scratchBlocked l plan.scratchDir.text e)) >>= fun _ =>
      clearAt plan.stageDir (.scratchBlocked l plan.scratchDir.text ·) [] := by
  unfold prepareScratch clearAt
  by_cases hl : l ∈ s.settings.clobber
  · simp only [hl, if_true, bind_assoc]
    congr 1
    funext there
    cases there <;> simp
  · simp [hl]

/-- A scratch directory that is made is there, without a stage and empty if it is to be cleared, and
elsewhere everything is as it was. -/
theorem prepareScratch_ok (hplan : s.Contains e plan) (hseat : Seat b.tree s.settings.buildRoot B j)
    (hlinks : NoLinks b.tree B) (hok : prepareScratch s l plan b = (.ok (), b')) :
    Fits s.settings.buildRoot [e.library.name ++ "-build", "stage"] ∧ ∀ m, b'.tree.get? m =
      if m = B ++ [e.library.name ++ "-build"] then some .dir
      else if B ++ [e.library.name ++ "-build", "stage"] <+: m ∨
          l ∈ s.settings.clobber ∧ B ++ [e.library.name ++ "-build"] <+: m then none
      else b.tree.get? m := by
  have hname : isName (e.library.name ++ "-build") = true := Site.isName_build e.library
  rw [prepareScratch_eq, hplan.scratchDir.trans (s.scratchDir_eq e.library),
    hplan.stageDir.trans (s.stageDir_eq e.library)] at hok
  generalize e.library.name ++ "-build" = x at *
  have hplain : Plain [x] := by simpa using hname
  have hplain' : Plain [x, "stage"] := plain_cons.2 ⟨hname, by decide⟩
  obtain ⟨⟨⟩, b₁, hclear, hrest⟩ := bind_ok hok
  obtain ⟨⟨⟩, b₂, hmake, hempty⟩ := bind_ok hrest
  obtain ⟨hchanged, hget₁⟩ : ChangedBelow s.settings.buildRoot B j b.tree b₁.tree ∧
      ∀ m, b₁.tree.get? m = if l ∈ s.settings.clobber ∧ B ++ [x] <+: m then none
        else b.tree.get? m := by
    split at hclear
    · next hl =>
      obtain ⟨-, hchanged, hget⟩ := clearAt_ok hseat hlinks (List.cons_ne_nil _ _) hplain hclear
      exact ⟨hchanged, by simpa only [hl, true_and] using hget⟩
    · next hl =>
      cases hclear
      exact ⟨Std.Refl.refl _, fun m => by rw [if_neg fun h => hl h.1]⟩
  obtain ⟨hs₁, hlinks₁⟩ := hchanged hseat hlinks
  have hseat₁ := hseat.of_sameAround hs₁
  have hmake := (onRefusal_ok hmake).1
  obtain ⟨-, hget₂⟩ := hseat₁.ensureDirs_ok hlinks₁ (List.cons_ne_nil _ _) hplain.descending hmake
  obtain ⟨hs₂, hlinks₂⟩ := (staysBelow_ensureDirs ⟨[x], List.cons_ne_nil _ _, hplain.descending,
    rfl⟩).of_apply hmake (fun _ _ => trivial) hseat₁ hlinks₁
  obtain ⟨hfits, -, hget₃⟩ := clearAt_ok (hseat₁.of_sameAround hs₂) hlinks₂ (List.cons_ne_nil _ _)
    hplain' hempty
  refine ⟨hfits, fun m => ?_⟩
  have hstage : ¬ B ++ [x, "stage"] <+: B ++ [x] := fun h => by simpa using h.length_le
  rw [hget₃, hget₂, hget₁]
  by_cases hm : m = B ++ [x]
  · subst hm
    rw [if_neg hstage, if_pos rfl, if_pos ⟨List.prefix_append _ _, List.prefix_rfl,
      List.forall_mem_append.2 ⟨isName_of_get? hseat.dir, hplain⟩⟩]
  rw [if_neg hm]
  by_cases hbelow : B ++ [x, "stage"] <+: m
  · rw [if_pos hbelow, if_pos (.inl hbelow)]
  rw [if_neg hbelow]
  by_cases hway : B <+: m ∧ m <+: B ++ [x] ∧ ∀ name ∈ m, isName name = true
  · have hpre := (List.prefix_concat_iff.1 hway.2.1).resolve_left hm
    obtain rfl : m = B := (hway.1.eq_of_length_le hpre.length_le).symm
    have hno : ¬ (l ∈ s.settings.clobber ∧ m ++ [x] <+: m) := fun h => by simpa using h.2.length_le
    rw [if_pos hway, if_neg (not_or.2 ⟨hbelow, hno⟩), hseat.dir]
  · rw [if_neg hway]
    simp only [hbelow, false_or]

/-- A scratch directory can be made when it and its stage are directories, as far as they are
there. -/
theorem prepareScratch_again (hplan : s.Contains e plan) (hseat : Seat b.tree s.settings.buildRoot B j)
    (hlinks : NoLinks b.tree B)
    (hfits : Fits s.settings.buildRoot [e.library.name ++ "-build", "stage"])
    (hdir : b.tree.get? (B ++ [e.library.name ++ "-build"]) = none ∨
      b.tree.get? (B ++ [e.library.name ++ "-build"]) = some .dir)
    (hstage : b.tree.get? (B ++ [e.library.name ++ "-build", "stage"]) = none ∨
      b.tree.get? (B ++ [e.library.name ++ "-build", "stage"]) = some .dir) :
    ∃ t' es, prepareScratch s l plan b =
      (.ok (), { b with tree := t', journal := b.journal ++ es }) := by
  have hname : isName (e.library.name ++ "-build") = true := Site.isName_build e.library
  rw [prepareScratch_eq, hplan.scratchDir.trans (s.scratchDir_eq e.library),
    hplan.stageDir.trans (s.stageDir_eq e.library)]
  generalize e.library.name ++ "-build" = x at *
  have hplain : Plain ([] ++ [x]) := by simpa using hname
  have hplain' : Plain ([x] ++ ["stage"]) := plain_cons.2 ⟨hname, by decide⟩
  have hstaged : Plain ["stage"] := by decide
  have hfits' : Fits s.settings.buildRoot ([] ++ [x]) := Fits.of_append hfits hstaged
  -- what is left before the directory is made
  obtain ⟨t₁, es₁, hclear, hchanged, hdir₁, hstage₁⟩ : ∃ t₁ es₁,
      (if l ∈ s.settings.clobber then
        clearAt (s.settings.buildRoot.within [x])
          (.scratchBlocked l (s.settings.buildRoot.within [x]).text ·)
          [.clobbered l (s.settings.buildRoot.within [x])]
      else pure () : Work σ Unit) b = (.ok (), { b with tree := t₁, journal := b.journal ++ es₁ }) ∧
      ChangedBelow s.settings.buildRoot B j b.tree t₁ ∧
      (t₁.get? (B ++ [x]) = none ∨ t₁.get? (B ++ [x]) = some .dir) ∧
      (t₁.get? (B ++ [x, "stage"]) = none ∨ t₁.get? (B ++ [x, "stage"]) = some .dir) := by
    split
    · obtain ⟨t₁, es, hclear⟩ : ∃ t₁ es, (clearAt (s.settings.buildRoot.within ([] ++ [x]))
          (.scratchBlocked l (s.settings.buildRoot.within [x]).text ·)
          [.clobbered l (s.settings.buildRoot.within [x])] : Work σ Unit) b =
            (.ok (), { b with tree := t₁, journal := b.journal ++ es }) :=
        clearAt_again hseat hlinks hplain hfits' hdir
      obtain ⟨-, hchanged, hget⟩ :=
        clearAt_ok hseat hlinks (List.cons_ne_nil _ _) hplain hclear
      refine ⟨t₁, es, hclear, hchanged, .inl ?_, .inl ?_⟩
      · rw [hget, if_pos List.prefix_rfl]
      · rw [hget, if_pos ⟨["stage"], by simp⟩]
    · exact ⟨b.tree, [], by rw [List.append_nil]; rfl, Std.Refl.refl _, hdir, hstage⟩
  obtain ⟨hs₁, hlinks₁⟩ := hchanged hseat hlinks
  have hseat₁ := hseat.of_sameAround hs₁
  have hpass : Passable t₁ B [x] := by
    intro front hfront
    rcases List.prefix_cons_iff.1 hfront with rfl | ⟨rest, rfl, hrest⟩
    · rw [List.append_nil]
      exact .inr hseat₁.dir
    · obtain rfl := List.prefix_nil.1 hrest
      exact hdir₁
  obtain ⟨t₂, hmake, hpaved⟩ :=
    hseat₁.ensureDirs_of_passable hseat₁.null (List.cons_ne_nil _ _) hplain hfits' hpass
  obtain ⟨hs₂, hlinks₂⟩ := (staysBelow_ensureDirs ⟨[x], List.cons_ne_nil _ _, hplain.descending,
    rfl⟩).of_apply hmake (fun _ _ => trivial) hseat₁ hlinks₁
  have hstage₂ : t₂.get? (B ++ [x, "stage"]) = none ∨ t₂.get? (B ++ [x, "stage"]) = some .dir := by
    rw [hpaved.get?, if_neg fun h => by simpa using h.2.length_le]
    exact hstage₁
  obtain ⟨t₃, es₃, hempty⟩ : ∃ t₃ es₃, (clearAt (s.settings.buildRoot.within ([x] ++ ["stage"]))
      (.scratchBlocked l (s.settings.buildRoot.within [x]).text ·) [] : Work σ Unit)
        { b with tree := t₂, journal := b.journal ++ es₁ } =
          (.ok (), { b with tree := t₃, journal := (b.journal ++ es₁) ++ es₃ }) :=
    clearAt_again (b := { b with tree := t₂, journal := b.journal ++ es₁ })
      (hseat₁.of_sameAround hs₂) hlinks₂ hplain' hfits hstage₂
  refine ⟨t₃, es₁ ++ es₃, ?_⟩
  rw [bind_of_ok hclear, bind_of_ok (onRefusal_of_ok hmake)]
  exact hempty.trans (by rw [List.append_assoc])

end Run

end Sysroot

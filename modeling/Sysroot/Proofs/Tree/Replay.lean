import Sysroot.Proofs.Install.Feasible
import Sysroot.Proofs.Tree.Alike
import Sysroot.Proofs.Tree.Pointwise

/-!
# Actions that can be repeated

An action that makes directories and writes files below a seat takes nothing away and turns no file
into a directory or the other way round: the tree keeps its shape (`Shaped`).  So it succeeds again
in every tree that has nothing else than a tree with its results, at the places that matter to it,
and again leaves such a tree (`Replays`).  What it changes is on the way to the places it makes
(`Worked`).
-/

namespace Sysroot.Tree

open Effect

variable {α β : Type} {t t' t'' u v : Tree} {root : Path} {B : Location} {k : Nat}
  {S S' : Location → Prop} {names front : List String} {name : String}

/-! ## The shape of a tree -/

/-- Whether a tree has what another one has at some places, directories where that has directories. -/
def Shaped (S : Location → Prop) (t v : Tree) : Prop :=
  ∀ m, S m → ∀ n, t.get? m = some n → ∃ n', v.get? m = some n' ∧ (n' = .dir ↔ n = .dir)

namespace Shaped

theorem refl (S : Location → Prop) (t : Tree) : Shaped S t t := fun _ _ n hn => ⟨n, hn, Iff.rfl⟩

theorem trans (h : Shaped S t t') (h' : Shaped S t' t'') : Shaped S t t'' := by
  intro m hm n hn
  obtain ⟨n', hn', hiff⟩ := h m hm n hn
  obtain ⟨n'', hn'', hiff'⟩ := h' m hm n' hn'
  exact ⟨n'', hn'', hiff'.trans hiff⟩

theorem mono (h : Shaped S t v) (hS : ∀ m, S' m → S m) : Shaped S' t v := fun m hm => h m (hS m hm)

theorem of_eq (h : ∀ m, S m → t.get? m = v.get? m) : Shaped S t v := fun m hm n hn =>
  ⟨n, (h m hm) ▸ hn, Iff.rfl⟩

theorem of_grown (h : t.Grown t') : Shaped S t t' := by
  intro m _ n hn
  rcases h.get? m with hsame | ⟨hfree, -⟩
  · exact ⟨n, hsame.trans hn, Iff.rfl⟩
  · rw [hfree] at hn
    cases hn

/-- Where the tree with the shape has a directory the other one has a directory or nothing. -/
theorem dir_or_none (h : Shaped S t v) {m : Location} (hm : S m) (hv : v.get? m = some .dir) :
    t.get? m = none ∨ t.get? m = some .dir := by
  rcases hn : t.get? m with _ | n
  · exact .inl rfl
  · obtain ⟨n', hn', hiff⟩ := h m hm n hn
    obtain rfl : n' = .dir := Option.some.inj (hn'.symm.trans hv)
    rw [hiff.1 rfl]
    exact .inr rfl

theorem ne_dir (h : Shaped S t v) {m : Location} (hm : S m) (hv : v.get? m ≠ some .dir) :
    t.get? m ≠ some .dir := by
  intro hdir
  obtain ⟨n', hn', hiff⟩ := h m hm .dir hdir
  exact hv (hiff.2 rfl ▸ hn')

theorem isSome (h : Shaped S t v) {m : Location} (hm : S m) (ht : (t.get? m).isSome = true) :
    (v.get? m).isSome = true := by
  obtain ⟨n, hn⟩ := Option.isSome_iff_exists.1 ht
  obtain ⟨n', hn', -⟩ := h m hm n hn
  exact Option.isSome_iff_exists.2 ⟨n', hn'⟩

/-- Two trees that have the shape of each other at a directory and its entries select the same
entries. -/
theorem select_wild (h : Shaped S t t') (h' : Shaped S t' t) (hseat : Seat t root B k)
    (hseat' : Seat t' root B k) (hlinks : NoLinks t B) (hlinks' : NoLinks t' B) (hne : names ≠ [])
    (hplain : Plain names) (hS : S (B ++ names)) (hentries : ∀ name, S (B ++ names ++ [name]))
    (text : String) :
    t'.select (root.within names) ⟨[.wild text], false⟩ =
      t.select (root.within names) ⟨[.wild text], false⟩ := by
  by_cases hfits : Fits root names
  swap
  · rw [select, select, query_of_not_fits hseat.null hplain hfits,
      query_of_not_fits hseat'.null hplain hfits]
    rfl
  have hdir : t'.isDir (root.within names) = t.isDir (root.within names) := by
    rw [Bool.eq_iff_iff, isDir, isDir, decide_eq_true_iff, decide_eq_true_iff,
      hseat'.node?_eq_some hlinks' hne hplain.descending,
      hseat.node?_eq_some hlinks hne hplain.descending]
    refine and_congr_right fun _ => ⟨fun hn => ?_, fun hn => ?_⟩
    · obtain ⟨n, hn', hiff⟩ := h' _ hS _ hn
      rw [hn', hiff.2 rfl]
    · obtain ⟨n, hn', hiff⟩ := h _ hS _ hn
      rw [hn', hiff.2 rfl]
  rw [select, select, hseat.query hlinks.askable hne hplain hfits,
    hseat'.query hlinks'.askable hne hplain hfits, hdir]
  cases hthere : t.isDir (root.within names) with
  | false => rfl
  | true =>
    have hn := ((hseat.node?_eq_some hlinks hne hplain.descending).1 (decide_eq_true_iff.1 hthere)).2
    have hn' := ((hseat'.node?_eq_some hlinks' hne hplain.descending).1
      (decide_eq_true_iff.1 (hdir.trans hthere))).2
    have hlist : t'.list (root.within names) = t.list (root.within names) := by
      rw [list, list, hseat'.locate_of_get? hlinks' hne hfits hn',
        hseat.locate_of_get? hlinks hne hfits hn]
      simp only [hn, hn', if_true]
      exact children_eq_of_isSome fun name => Bool.eq_iff_iff.2
        ⟨fun hsome => h'.isSome (hentries name) hsome, fun hsome => h.isSome (hentries name) hsome⟩
    simp only [selectFrom, hlist, decide_true, Bool.not_false, Bool.and_self, if_true]

end Shaped

/-! ## Repetition -/

/-- Whether an action that succeeds below a seat without links keeps the shape of the tree, and
succeeds with the same result in every tree that has nothing at some places that a tree with its
results has not. -/
def Replays (S : Location → Prop) (root : Path) (B : Location) (k : Nat) (x : Action α) : Prop :=
  ∀ t a t', Seat t root B k → NoLinks t B → x t = (.ok a, t') →
    Shaped (fun _ => True) t t' ∧ ∀ v u, Shaped S t' v → Seat u root B k → NoLinks u B →
      Shaped S u v → ∃ u', x u = (.ok a, u') ∧ Shaped S u' v

namespace Replays

theorem pure (a : α) : Replays S root B k (pure a : Action α) := by
  intro t b t' _ _ h
  cases h
  exact ⟨.refl _ _, fun v u _ _ _ hu => ⟨u, rfl, hu⟩⟩

theorem bind {x : Action α} {f : α → Action β} (hx : Replays S root B k x)
    (hstays : Action.StaysBelow root B k x) (hf : ∀ a, Replays S root B k (f a)) :
    Replays S root B k (x >>= f) := by
  intro t b t' hseat hlinks h
  obtain ⟨a, t₁, h₁, h₂⟩ := bind_ok h
  obtain ⟨hs, hlinks₁⟩ := hstays.of_apply h₁ (fun _ _ => trivial) hseat hlinks
  obtain ⟨hshape, hagain⟩ := hx t a t₁ hseat hlinks h₁
  obtain ⟨hshape', hagain'⟩ := hf a t₁ b t' (hseat.of_sameAround hs) hlinks₁ h₂
  refine ⟨hshape.trans hshape', fun v u hv hu hulinks hshaped => ?_⟩
  obtain ⟨u₁, hu₁, hshaped₁⟩ :=
    hagain v u ((hshape'.mono fun _ _ => trivial).trans hv) hu hulinks hshaped
  obtain ⟨hs', hulinks₁⟩ := hstays.of_apply hu₁ (fun _ _ => trivial) hu hulinks
  obtain ⟨u', hu', hshaped'⟩ := hagain' v u₁ hv (hu.of_sameAround hs') hulinks₁ hshaped₁
  exact ⟨u', (bind_of_ok hu₁).trans hu', hshaped'⟩

theorem forM {f : β → Action Unit} {as : List β}
    (hf : ∀ a ∈ as, Replays S root B k (f a) ∧ Action.StaysBelow root B k (f a)) :
    Replays S root B k (as.forM f) := by
  induction as with
  | nil => exact .pure ()
  | cons a as ih =>
    obtain ⟨hreplays, hstays⟩ := hf a List.mem_cons_self
    exact hreplays.bind hstays fun _ => ih fun b hb => hf b (List.mem_cons_of_mem _ hb)

/-- A refusal that is turned into another failure leaves the success as it is. -/
theorem onRefusal {x : Action α} (hx : Replays S root B k x) (cause : SystemError → Cause) :
    Replays S root B k (Action.onRefusal x fun e => Action.fail (cause e)) := by
  intro t a t' hseat hlinks h
  rw [Action.onRefusal_apply] at h
  split at h
  · cases h
  · next hok =>
    obtain ⟨hshape, hagain⟩ := hx t a t' hseat hlinks (hok.trans h)
    refine ⟨hshape, fun v u hv hu hulinks hshaped => ?_⟩
    obtain ⟨u', hu', hshaped'⟩ := hagain v u hv hu hulinks hshaped
    exact ⟨u', by rw [Action.onRefusal_apply, hu'], hshaped'⟩

/-- Making directories can be repeated. -/
theorem ensureDirs (hne : names ≠ []) (hplain : Plain names)
    (hS : ∀ front, front ≠ [] → front <+: names → S (B ++ front)) :
    Replays S root B k (Action.ensureDirs (root.within names)) := by
  intro t a t' hseat hlinks h
  have hgrown : t.Grown t' := by
    have := Action.ensureDirs_grown (p := root.within names) (t := t)
    rwa [h] at this
  refine ⟨.of_grown hgrown, fun v u hv hu hulinks hshaped => ?_⟩
  obtain ⟨hfits, hget⟩ := hseat.ensureDirs_ok hlinks hne hplain.descending h
  have hdir : ∀ front, front <+: names → t'.get? (B ++ front) = some .dir := fun front hfront => by
    rw [hget, if_pos ⟨List.prefix_append _ _, (List.prefix_append_right_inj B).2 hfront,
      List.forall_mem_append.2 ⟨isName_of_get? hseat.dir, fun n hn => hplain n (hfront.subset hn)⟩⟩]
  have hvdir : ∀ front, front ≠ [] → front <+: names → v.get? (B ++ front) = some .dir := by
    intro front hfront hpre
    obtain ⟨n', hn', hiff⟩ := hv _ (hS front hfront hpre) _ (hdir front hpre)
    rw [hn', hiff.2 rfl]
  have hpass : Passable u B names := by
    intro front hpre
    by_cases hfront : front = []
    · rw [hfront, List.append_nil]
      exact .inr hu.dir
    · exact hshaped.dir_or_none (hS front hfront hpre) (hvdir front hfront hpre)
  obtain ⟨u', hok, hpaved⟩ := hu.ensureDirs_of_passable hseat.null hne hplain hfits hpass
  refine ⟨u', hok, fun m hm n hn => ?_⟩
  rw [hpaved.get?] at hn
  split at hn
  · next hway =>
    obtain ⟨⟨front, rfl⟩, hpre⟩ := hway
    by_cases hfront : front = []
    · subst hfront
      rw [List.append_nil] at hm ⊢
      exact hshaped B hm n (by rw [hu.dir, hn])
    · cases hn
      exact ⟨_, hvdir front hfront ((List.prefix_append_right_inj B).1 hpre), Iff.rfl⟩
  · exact hshaped m hm n hn

/-- Writing a file succeeds again where its directory is there. -/
theorem writeFile_again (hseat : Seat t root B k) (hlinks : NoLinks t B)
    (hplain : Plain (front ++ [name])) (hS : S (B ++ (front ++ [name]))) {content : List UInt8}
    (h : t.writeFile (root.within (front ++ [name])) content = .ok t') :
    Shaped (fun _ => True) t t' ∧
    (Fits root (front ++ [name]) ∧ (t'.get? (B ++ (front ++ [name]))).isSome = true) ∧
    ∀ v u content', Shaped S t' v → Seat u root B k → NoLinks u B → Shaped S u v →
      u.get? (B ++ front) = some .dir →
      ∃ u', u.writeFile (root.within (front ++ [name])) content' = .ok u' ∧ Shaped S u' v := by
  have hget := hseat.writeFile_ok hlinks (concat_ne_nil front name) hplain.descending h
  have hname : isName ((front ++ [name]).getLast (concat_ne_nil front name)) = true :=
    hplain _ (List.getLast_mem _)
  obtain ⟨l, hl, hwritten⟩ := except_bind_ok h
  obtain ⟨rfl, hfits, hdir⟩ := hseat.dir_of_locate hlinks hplain.descending (locate_of_place hl)
  have hno : t.get? (B ++ (front ++ [name])) ≠ some .dir := by
    intro hno
    simp only [hno] at hwritten
    cases hwritten
  have hfile : t'.get? (B ++ (front ++ [name])) =
      some (.file content (mayRun (t.get? (B ++ (front ++ [name]))))) := by
    rw [hget, if_pos ⟨rfl, hname⟩]
  refine ⟨fun m _ n hn => ?_, ⟨hfits, Option.isSome_iff_exists.2 ⟨_, hfile⟩⟩,
    fun v u content' hv hu hulinks hshaped hudir => ?_⟩
  · by_cases hm : m = B ++ (front ++ [name])
    · subst hm
      refine ⟨_, hfile, iff_of_false nofun ?_⟩
      rintro rfl
      exact hno hn
    · exact ⟨n, by rw [hget, if_neg fun h => hm h.1, hn], Iff.rfl⟩
  · obtain ⟨n', hn', hiff⟩ := hv _ hS _ hfile
    have hvdir : v.get? (B ++ (front ++ [name])) ≠ some .dir := by
      rw [hn']
      intro hdir
      cases hiff.1 (Option.some.inj hdir)
    rcases hu.writeFile hseat.null hplain hfits hudir (fun target => hulinks _ target) content' with
      ⟨hno', -⟩ | ⟨u', hok, hadd⟩
    · exact absurd hno' (hshaped.ne_dir hS hvdir)
    · refine ⟨u', hok, fun m hm n hn => ?_⟩
      rw [hadd.get?] at hn
      split at hn
      · next heq =>
        subst heq
        cases hn
        exact ⟨n', hn', iff_of_false (fun h => hvdir (h ▸ hn')) nofun⟩
      · exact hshaped m hm n hn

/-- Writing a file at the root can be repeated. -/
theorem writeFile (hplain : Plain [name]) (hS : S (B ++ [name])) (content : List UInt8) :
    Replays S root B k (Action.apply (Tree.writeFile · (root.within [name]) content)) := by
  intro t a t' hseat hlinks h
  rw [Action.apply_apply] at h
  split at h
  · next t₁ hwrite =>
    cases h
    have hplain' : Plain ([] ++ [name]) := hplain
    obtain ⟨hshape, -, hagain⟩ := writeFile_again hseat hlinks hplain' hS hwrite
    refine ⟨hshape, fun v u hv hu hulinks hshaped => ?_⟩
    obtain ⟨u', hok, hshaped'⟩ := hagain v u content hv hu hulinks hshaped
      (by rw [List.append_nil, hu.dir])
    exact ⟨u', by rw [Action.apply_apply, show u.writeFile (root.within [name]) content = _ from hok],
      hshaped'⟩
  · cases h

/-- Writing a file in a directory that is made for it can be repeated. -/
theorem putText (hfront : front ≠ []) (hplain : Plain (front ++ [name]))
    (hS : ∀ y, y ≠ [] → y <+: front ++ [name] → S (B ++ y)) (text : String) :
    Replays S root B k (do
      Action.ensureDirs (root.within front)
      Action.writeText (root.within (front ++ [name])) text) := by
  intro t a t' hseat hlinks h
  have hplain' : Plain front := fun n hn => hplain n (List.mem_append_left _ hn)
  have hbelow : Below root (root.within front) := ⟨front, hfront, hplain'.descending, rfl⟩
  have hdirs : Replays S root B k (Action.ensureDirs (root.within front)) :=
    ensureDirs hfront hplain' fun y hy hpre => hS y hy (hpre.trans (List.prefix_append _ _))
  obtain ⟨⟨⟩, t₁, h₁, h₂⟩ := bind_ok h
  obtain ⟨hs, hlinks₁⟩ :=
    (Action.staysBelow_ensureDirs hbelow).of_apply h₁ (fun _ _ => trivial) hseat hlinks
  obtain ⟨hshape, hagain⟩ := hdirs t () t₁ hseat hlinks h₁
  rw [Action.writeText, Action.apply_apply] at h₂
  split at h₂
  · next t₂ hwrite =>
    cases h₂
    obtain ⟨hshape', -, hagain'⟩ := writeFile_again (hseat.of_sameAround hs) hlinks₁ hplain
      (hS _ (concat_ne_nil front name) List.prefix_rfl) hwrite
    refine ⟨hshape.trans hshape', fun v u hv hu hulinks hshaped => ?_⟩
    obtain ⟨u₁, hu₁, hshaped₁⟩ :=
      hagain v u ((hshape'.mono fun _ _ => trivial).trans hv) hu hulinks hshaped
    obtain ⟨hs', hulinks₁⟩ :=
      (Action.staysBelow_ensureDirs hbelow).of_apply hu₁ (fun _ _ => trivial) hu hulinks
    have hudir : u₁.get? (B ++ front) = some .dir := by
      rw [(hu.ensureDirs_ok hulinks hfront hplain'.descending hu₁).2, if_pos ⟨List.prefix_append _ _,
        List.prefix_rfl, List.forall_mem_append.2 ⟨isName_of_get? hu.dir, hplain'⟩⟩]
    obtain ⟨u', hok, hshaped'⟩ := hagain' v u₁ (Text.Utf8.bytesOf text) hv (hu.of_sameAround hs')
      hulinks₁ hshaped₁ hudir
    exact ⟨u', (bind_of_ok hu₁).trans (by rw [Action.writeText, Action.apply_apply, hok]), hshaped'⟩
  · cases h₂

end Replays

/-! ## What work changes -/

/-- Whether what differs between two trees is below a seat: directories on the way to some places and
what is at others. -/
def Worked (root : Path) (B : Location) (k : Nat) (D O : List String → Prop) (t t' : Tree) : Prop :=
  Seat t root B k → NoLinks t B → (SameAround B t t' ∧ NoLinks t' B) ∧ ∀ m, t'.get? m = t.get? m ∨
    (t'.get? m = some .dir ∧ ∃ d, D d ∧ B <+: m ∧ m <+: B ++ d) ∨ ∃ o, O o ∧ m = B ++ o

variable {D O : List String → Prop}

instance : Std.Refl (Worked root B k D O) :=
  ⟨fun t _ hlinks => ⟨⟨.refl B t, hlinks⟩, fun _ => .inl rfl⟩⟩

instance : Trans (Worked root B k D O) (Worked root B k D O) (Worked root B k D O) where
  trans h h' hseat hlinks := by
    obtain ⟨⟨hs, hlinks'⟩, hget⟩ := h hseat hlinks
    obtain ⟨⟨hs', hlinks''⟩, hget'⟩ := h' (hseat.of_sameAround hs) hlinks'
    refine ⟨⟨hs.trans hs', hlinks''⟩, fun m => ?_⟩
    rcases hget' m with hsame | hchanged
    · rw [hsame]
      exact hget m
    · exact .inr hchanged

/-- Whether an action that succeeds changes a tree in that way only. -/
abbrev Action.Works (root : Path) (B : Location) (k : Nat) (D O : List String → Prop)
    (x : Action α) : Prop :=
  Keeps (fun _ => False) (Worked root B k D O) x

namespace Action

theorem works_of_ok {x : Action α} (h : ∀ t a t', x t = (.ok a, t') → Worked root B k D O t t') :
    Works root B k D O x := by
  intro t hok
  rcases hx : x t with ⟨e | a, t'⟩
  · exact (hok e (congrArg Prod.fst hx)).elim
  · exact h t a t' hx

theorem Works.of_apply {x : Action α} {a : α} (hx : Works root B k D O x) (h : x t = (.ok a, t')) :
    Worked root B k D O t t' := by
  have hworked := hx t fun e he => by
    rw [h] at he
    cases he
  rwa [h] at hworked

theorem works_ensureDirs (hne : names ≠ []) (hnames : Descending names) (hD : D names) :
    Works root B k D O (ensureDirs (root.within names)) := by
  refine works_of_ok fun t _ t' hx hseat hlinks => ?_
  refine ⟨(staysBelow_ensureDirs ⟨names, hne, hnames, rfl⟩).of_apply hx (fun _ _ => trivial) hseat
    hlinks, fun m => ?_⟩
  rw [(hseat.ensureDirs_ok hlinks hne hnames hx).2]
  split
  · next hway => exact .inr (.inl ⟨rfl, names, hD, hway.1, hway.2.1⟩)
  · exact .inl rfl

theorem works_writeText (hne : names ≠ []) (hnames : Descending names) (hO : O names)
    (text : String) : Works root B k D O (writeText (root.within names) text) := by
  refine works_of_ok fun t _ t' hx hseat hlinks => ?_
  refine ⟨(staysBelow_writeText ⟨names, hne, hnames, rfl⟩ text).of_apply hx (fun _ _ => trivial)
    hseat hlinks, fun m => ?_⟩
  rw [writeText, apply_apply] at hx
  split at hx
  · next t₁ hwrite =>
    cases hx
    rw [hseat.writeFile_ok hlinks hne hnames hwrite]
    split
    · next heq => exact .inr (.inr ⟨names, hO, heq.1⟩)
    · exact .inl rfl
  · cases hx

theorem works_onRefusal {x : Action α} (hx : Works root B k D O x) (cause : SystemError → Cause) :
    Works root B k D O (onRefusal x fun e => fail (cause e)) := by
  refine works_of_ok fun t a t' h => ?_
  rw [onRefusal_apply] at h
  split at h
  · cases h
  · next hok => exact hx.of_apply (hok.trans h)

end Action

end Sysroot.Tree

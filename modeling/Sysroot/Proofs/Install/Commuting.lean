import Sysroot.Proofs.Install.Detached
import Sysroot.Proofs.Install.Installable

/-!
# Installations of different libraries commute

What a request that is carried out does to a sysroot is told place by place (`Request.Effects`).  A
request of another library that lies apart from it finds all that it needs as it was before
(`Request.Effects.installable_iff`), and nobody owns its places (`collisions_eq_nil_iff`).  So two requests
that are carried out one after the other are carried out in the other order too, and lead to the same
sysroot (`Request.Detached.run_comm`).
-/

namespace Sysroot.Install

open Sysroot.Tree Sysroot.Tree.Action

variable {t t' t₁ t₂ : Tree} {root : Path} {R : Location} {k : Nat} {l l₁ l₂ : Library}
  {r r₁ r₂ : Request} {m m₁ m₂ : OrderedMap String Path} {owned : OrderedMap String Library}
  {files : List Path} {x y : List String} {n : Node}

/-! ## The effects of a request -/

/-- Whether a node is the manifest of a library with what it listed in a tree and what a request
sends. -/
def Request.Records (r : Request) (t : Tree) (root : Path) (R : Location) (l : Library)
    (n : Option Node) : Prop :=
  ∃ before keys, manifestAt root l (t.get? (R ++ manifestNames l)) = .ok before ∧ r.Keys t keys ∧
    n = some (.file (manifestBytes l (before ++ keys)) (mayRun (t.get? (R ++ manifestNames l))))

/-- A manifest is told by what it lists. -/
theorem Request.Records.unique {n n' : Option Node} (h : r.Records t root R l n)
    (h' : r.Records t root R l n') : n = n' := by
  obtain ⟨before, keys, hbefore, hkeys, rfl⟩ := h
  obtain ⟨before', keys', hbefore', hkeys', rfl⟩ := h'
  obtain rfl := Except.ok.inj (hbefore.symm.trans hbefore')
  have hset : sortedSet (before ++ keys) = sortedSet (before ++ keys') := sortedSet_eq fun f => by
    rw [List.mem_append, List.mem_append, hkeys f, hkeys' f]
  rw [manifestBytes, manifestBytes, manifestJson, manifestJson, hset]

/-- Whether names are on the way to a directory of the sysroot or to what a request sends. -/
def Request.OnWay (r : Request) (t : Tree) (y : List String) : Prop :=
  (∃ name ∈ sysrootDirs, y <+: [name]) ∨ ∃ x n, r.Sends t x n ∧ y <+: x

/-- What a request does to a sysroot when it is carried out. -/
structure Request.Effects (r : Request) (t t' : Tree) (root : Path) (R : Location) (k : Nat)
    (l : Library) : Prop where
  seat : Seat t' root R k
  links : NoLinks t' R
  changed : ChangedAt R t t'
  places : ∀ x n, r.Sends t x n → IsPlace x ∧ n ≠ .dir
  sent : ∀ x n, r.Sends t x n → t'.get? (R ++ x) = some n
  dirs : ∀ name ∈ sysrootDirs, t'.get? (R ++ [name]) = some .dir
  manifest : r.Records t root R l (t'.get? (R ++ manifestNames l))
  others : ∀ y, (∀ x n, r.Sends t x n → ¬ x <+: y) → y ≠ manifestNames l →
    t'.get? (R ++ y) = t.get? (R ++ y) ∨
      t.get? (R ++ y) = none ∧ t'.get? (R ++ y) = some .dir ∧ r.OnWay t y

/-- A request that is carried out has its effects. -/
theorem Request.Aimed.effects (hr : r.Aimed t R) (hstandard : r.Standard) (hsite : Sited t root R k)
    (hlinks : NoLinks t R) (hok : r.run root l t = (.ok files, t')) :
    r.Effects t t' root R k l := by
  obtain ⟨m, owned, hm, -, -, -, hinst, hlinks', t₁, t₂, t₃, t₄, a, filled, moved, before, h⟩ :=
    hr.course hsite hlinks hok
  obtain ⟨m', hm', -, -, -, -, hitems, -⟩ := hr.filled hsite (Request.hasNull_of_run hok) hlinks hok
  obtain rfl : m' = m := by
    rw [hm] at hm'
    cases hm'
    rfl
  have hplace : ∀ {x}, (∃ item ∈ m'.pairs, namesOf item.1 = x) ↔ ∃ n, r.Sends t x n :=
    Request.exists_item_iff hr.inward hstandard hm
  have hsent : ∀ x n, r.Sends t x n → t'.get? (R ++ x) = some n ∧ n ≠ .dir := by
    intro x n hsends
    obtain ⟨dir, hdir, p, hbeneath, hgives⟩ := hsends.gives hstandard
    have hitem : ((Path.ofNames x).text, dir.within p) ∈ m'.pairs :=
      (Request.mem_mapping hr.inward hstandard hm).2 ⟨x, rfl, hgives⟩
    obtain ⟨hentry, -, content, executable, hsource, hn⟩ := hitems _ hitem
    obtain rfl := (hr.outside dir hdir).eq_of_node? hbeneath hsource
    rw [hentry.namesOf_eq hgives.spelled rfl] at hn
    exact ⟨hn, nofun⟩
  refine ⟨hinst.seat, hlinks', ⟨hinst.around, fun y hy hy' => ?_⟩, fun x n hsends => ?_,
    fun x n hsends => (hsent x n hsends).1, h.dirs hsite hlinks,
    ⟨before, m'.keys, h.listed, Request.keys_mapping hr.inward hstandard hm, h.get?_manifest⟩,
    fun y hout hy => ?_⟩
  · rw [h.sameAround.get? y fun hpre => absurd hpre hy', h.opened.added.get?,
      if_neg fun heq => hy' (by rw [heq]; exact List.prefix_append R _),
      create_keeps hsite h.created hlinks hy hy']
  · obtain ⟨item, hitem, rfl⟩ := hplace.2 ⟨n, hsends⟩
    exact ⟨(h.place hitem).1, (hsent _ n hsends).2⟩
  · refine (h.others hsite hlinks (fun item hitem hpre => ?_) hy).imp id fun hnew =>
      ⟨hnew.1, hnew.2.1, hnew.2.2.imp id fun ⟨item, hitem, hyx⟩ => ?_⟩
    · obtain ⟨n, hsends⟩ := hplace.1 ⟨item, hitem, rfl⟩
      exact hout _ n hsends hpre
    · obtain ⟨n, hsends⟩ := hplace.1 ⟨item, hitem, rfl⟩
      exact ⟨_, n, hsends, hyx⟩

namespace Request.Effects

variable (h : r.Effects t t' root R k l)

include h

/-- On the way to what is sent there are directories. -/
theorem dir_of_onWay (hy : r.OnWay t y) (hnot : ∀ n, ¬ r.Sends t y n) :
    t'.get? (R ++ y) = some .dir := by
  rcases hy with ⟨name, hname, hpre⟩ | ⟨x, n, hsends, hpre⟩
  · by_cases heq : y = [name]
    · rw [heq, h.dirs name hname]
    · exact get?_of_above (h.dirs name hname) ((List.prefix_append_right_inj R).2 hpre)
        fun hno => heq (List.append_cancel_left hno)
  · by_cases heq : y = x
    · exact absurd (heq ▸ hsends) (hnot n)
    · exact get?_of_above (h.sent x n hsends) ((List.prefix_append_right_inj R).2 hpre)
        fun hno => heq (List.append_cancel_left hno)

/-- Neither a place nor what is on the way to one is among the manifests. -/
theorem not_onWay {a : String} {more : List String} : ¬ r.OnWay t (".manifests" :: a :: more) := by
  rintro (⟨name, -, hpre⟩ | ⟨x, n, hsends, hpre⟩)
  · simpa using hpre.length_le
  · exact (h.places x n hsends).1.not_below_stash (a := a) (y := more) hpre

/-- Among the manifests a request changes that of its library only. -/
theorem get?_manifests {a : String} {more : List String}
    (hother : ".manifests" :: a :: more ≠ manifestNames l) :
    t'.get? (R ++ ".manifests" :: a :: more) = t.get? (R ++ ".manifests" :: a :: more) := by
  refine (h.others _ (fun x n hsends => ?_) hother).resolve_right fun hno => h.not_onWay hno.2.2
  exact (h.places x n hsends).1.not_above_stash (a := a) (y := more)

end Request.Effects

/-! ## One request after the other -/

/-- What two requests of different libraries, which lie apart, do to a sysroot. -/
structure Request.Both (r₁ r₂ : Request) (t t' : Tree) (root : Path) (R : Location)
    (l₁ l₂ : Library) : Prop where
  sent₁ : ∀ x n, r₁.Sends t x n → t'.get? (R ++ x) = some n
  sent₂ : ∀ x n, r₂.Sends t x n → t'.get? (R ++ x) = some n
  files : ∀ x n, r₁.Sends t x n ∨ r₂.Sends t x n → n ≠ .dir
  manifest₁ : r₁.Records t root R l₁ (t'.get? (R ++ manifestNames l₁))
  manifest₂ : r₂.Records t root R l₂ (t'.get? (R ++ manifestNames l₂))
  ways : ∀ y, r₁.OnWay t y ∨ r₂.OnWay t y → (∀ n, ¬ r₁.Sends t y n) → (∀ n, ¬ r₂.Sends t y n) →
    t'.get? (R ++ y) = some .dir
  others : ∀ y, ¬ r₁.OnWay t y → ¬ r₂.OnWay t y → (∀ x n, r₁.Sends t x n → ¬ x <+: y) →
    (∀ x n, r₂.Sends t x n → ¬ x <+: y) → y ≠ manifestNames l₁ → y ≠ manifestNames l₂ →
    t'.get? (R ++ y) = t.get? (R ++ y)

namespace Request.Both

theorem symm (h : r₁.Both r₂ t t' root R l₁ l₂) : r₂.Both r₁ t t' root R l₂ l₁ where
  sent₁ := h.sent₂
  sent₂ := h.sent₁
  files x n hsends := h.files x n hsends.symm
  manifest₁ := h.manifest₂
  manifest₂ := h.manifest₁
  ways y hy h₂ h₁ := h.ways y hy.symm h₁ h₂
  others y h₂ h₁ hout₂ hout₁ hy₂ hy₁ := h.others y h₁ h₂ hout₁ hout₂ hy₁ hy₂

/-- What two requests do to a sysroot is told by the sysroot as it was before. -/
theorem get?_eq {t'' : Tree} (h : r₁.Both r₂ t t' root R l₁ l₂) (h' : r₁.Both r₂ t t'' root R l₁ l₂)
    (y : List String) : t'.get? (R ++ y) = t''.get? (R ++ y) := by
  by_cases hsent₁ : ∃ n, r₁.Sends t y n
  · obtain ⟨n, hsends⟩ := hsent₁
    rw [h.sent₁ y n hsends, h'.sent₁ y n hsends]
  by_cases hsent₂ : ∃ n, r₂.Sends t y n
  · obtain ⟨n, hsends⟩ := hsent₂
    rw [h.sent₂ y n hsends, h'.sent₂ y n hsends]
  push Not at hsent₁ hsent₂
  by_cases hway : r₁.OnWay t y ∨ r₂.OnWay t y
  · rw [h.ways y hway hsent₁ hsent₂, h'.ways y hway hsent₁ hsent₂]
  push Not at hway
  by_cases hbelow : ∃ x n, (r₁.Sends t x n ∨ r₂.Sends t x n) ∧ x <+: y
  · -- below what was sent there is nothing
    obtain ⟨x, n, hsends, more, rfl⟩ := hbelow
    have hmore : more ≠ [] := by
      rintro rfl
      rw [List.append_nil] at hsent₁ hsent₂
      exact hsends.elim (hsent₁ n) (hsent₂ n)
    have hfree : ∀ {t : Tree}, t.get? (R ++ x) = some n → t.get? (R ++ (x ++ more)) = none := by
      intro t hn
      rw [← List.append_assoc]
      refine get?_append_eq_none (fun hdir => ?_) hmore
      exact h.files x n hsends (Option.some.inj (hn.symm.trans hdir))
    rw [hfree (hsends.elim (h.sent₁ x n) (h.sent₂ x n)),
      hfree (hsends.elim (h'.sent₁ x n) (h'.sent₂ x n))]
  push Not at hbelow
  by_cases hy₁ : y = manifestNames l₁
  · rw [hy₁]
    exact h.manifest₁.unique h'.manifest₁
  by_cases hy₂ : y = manifestNames l₂
  · rw [hy₂]
    exact h.manifest₂.unique h'.manifest₂
  have hout₁ : ∀ x n, r₁.Sends t x n → ¬ x <+: y := fun x n hsends => hbelow x n (.inl hsends)
  have hout₂ : ∀ x n, r₂.Sends t x n → ¬ x <+: y := fun x n hsends => hbelow x n (.inr hsends)
  rw [h.others y hway.1 hway.2 hout₁ hout₂ hy₁ hy₂, h'.others y hway.1 hway.2 hout₁ hout₂ hy₁ hy₂]

end Request.Both

/-- Whether nothing that one request sends is at or on the way to what the other one sends. -/
def Request.Apart₂ (r₁ r₂ : Request) (t : Tree) : Prop :=
  ∀ x n y n', r₁.Sends t x n → r₂.Sends t y n' → ¬ x <+: y ∧ ¬ y <+: x

/-- Whether a request finds the same for its installation in two trees. -/
structure Request.SameNeeds (r : Request) (t t' : Tree) (R : Location) (l : Library) : Prop where
  sends : ∀ x n, r.Sends t' x n ↔ r.Sends t x n
  gives : ∀ x source, r.Gives t' x source ↔ r.Gives t x source
  node : ∀ x source, r.Gives t x source → t'.node? source = t.node? source
  aside : ∀ a, IsAside l a → t'.get? (R ++ stash a) = t.get? (R ++ stash a)
  manifest : t'.get? (R ++ manifestNames l) = t.get? (R ++ manifestNames l)
  place : ∀ x n, r.Sends t x n → IsPlace x → t'.get? (R ++ x) = t.get? (R ++ x)
  way : ∀ x n, r.Sends t x n → IsPlace x → (Passable t' R x.dropLast ↔ Passable t R x.dropLast)

theorem Request.SameNeeds.symm (h : r.SameNeeds t t' R l) : r.SameNeeds t' t R l where
  sends x n := (h.sends x n).symm
  gives x source := (h.gives x source).symm
  node x source hgives := (h.node x source ((h.gives x source).1 hgives)).symm
  aside a ha := (h.aside a ha).symm
  manifest := h.manifest.symm
  place x n hsends hplace := (h.place x n ((h.sends x n).1 hsends) hplace).symm
  way x n hsends hplace := (h.way x n ((h.sends x n).1 hsends) hplace).symm

/-- A request is installable where it finds the same as where it is so, if the directories of the sysroot
can be made. -/
theorem Request.Installable.of_sameNeeds (h : r.Installable t root R l) (hsame : r.SameNeeds t t' R l)
    (hcreate : ∃ t'', create root t' = (.ok (), t'')) : r.Installable t' root R l := by
  obtain ⟨a, ha, hfits, hfree⟩ := h.aside
  obtain ⟨before, hbefore⟩ := h.listed
  refine ⟨hcreate, ⟨a, ha, hfits, (hsame.aside a ha).trans hfree⟩,
    fun x n hx => h.place x n ((hsame.sends x n).1 hx), fun x source hx => ?_,
    fun x n y n' hx hy => h.apart x n y n' ((hsame.sends x n).1 hx) ((hsame.sends y n').1 hy),
    fun x n hx => ?_, fun x n hx hsome => ?_, h.fits, before, hsame.manifest.symm ▸ hbefore⟩
  · have hx' := (hsame.gives x source).1 hx
    obtain ⟨n, hn⟩ := h.source x source hx'
    exact ⟨n, (hsame.node x source hx').trans hn⟩
  · have hx' := (hsame.sends x n).1 hx
    exact (hsame.way x n hx' (h.place x n hx').1).2 (h.way x n hx')
  · have hx' := (hsame.sends x n).1 hx
    exact h.room x n hx' (by rwa [← hsame.place x n hx' (h.place x n hx').1])

section

variable (h₁ : r₁.Effects t t₁ root R k l₁) (hapart : r₁.Apart₂ r₂ t)

include h₁ hapart

/-- On the way to a place of a request there is, after one that lies apart, what was there before or
a new directory; at a place, what was there. -/
theorem Request.Effects.get?_way (hsends : r₂.Sends t x n) (hplace : IsPlace x) (hy : y <+: x) :
    t₁.get? (R ++ y) = t.get? (R ++ y) ∨
      t.get? (R ++ y) = none ∧ t₁.get? (R ++ y) = some .dir ∧ y ≠ x := by
  have hmanifest : y ≠ manifestNames l₁ := fun heq => hplace.not_below_manifest (l := l₁) (heq ▸ hy)
  refine (h₁.others y (fun x' n' hsends' hpre => ?_) hmanifest).imp id fun hnew => ⟨hnew.1, hnew.2.1, ?_⟩
  · exact (hapart x' n' x n hsends' hsends).1 (hpre.trans hy)
  · rintro rfl
    rcases hnew.2.2 with ⟨name, -, hpre⟩ | ⟨x', n', hsends', hpre⟩
    · have hlen := hpre.length_le
      have hdeep := hplace.deep
      simp only [List.length_singleton] at hlen
      omega
    · exact (hapart x' n' y n hsends' hsends).2 hpre

/-- Requests one after the other do what both do, if the second one sends the same as before. -/
theorem Request.Effects.both (hne : l₁ ≠ l₂) (h₂ : r₂.Effects t₁ t₂ root R k l₂)
    (hsends : ∀ x n, r₂.Sends t₁ x n ↔ r₂.Sends t x n) : r₁.Both r₂ t t₂ root R l₁ l₂ := by
  have hway : ∀ y, r₂.OnWay t₁ y ↔ r₂.OnWay t y := fun y => by
    simp only [Request.OnWay, hsends]
  have hplaces₂ : ∀ x n, r₂.Sends t x n → IsPlace x ∧ n ≠ .dir := fun x n hx =>
    h₂.places x n ((hsends x n).2 hx)
  have hmanifest : t₁.get? (R ++ manifestNames l₂) = t.get? (R ++ manifestNames l₂) :=
    h₁.get?_manifests fun heq => hne (manifestNames_injective heq).symm
  have hmanifest' : t₂.get? (R ++ manifestNames l₁) = t₁.get? (R ++ manifestNames l₁) :=
    h₂.get?_manifests fun heq => hne (manifestNames_injective heq)
  refine ⟨fun x n hx => ?_, fun x n hx => h₂.sent x n ((hsends x n).2 hx), ?_, ?_, ?_, ?_, ?_⟩
  · -- the second request leaves what the first one sent
    have hplace := (h₁.places x n hx).1
    rcases h₂.others x (fun y n' hy => (hapart x n y n' hx ((hsends y n').1 hy)).2)
      (fun heq => hplace.not_above_manifest (l := l₂) (heq ▸ List.prefix_rfl)) with heq | ⟨hnone, -⟩
    · rw [heq, h₁.sent x n hx]
    · rw [h₁.sent x n hx] at hnone
      cases hnone
  · rintro x n (hx | hx)
    · exact (h₁.places x n hx).2
    · exact (hplaces₂ x n hx).2
  · rw [hmanifest']
    exact h₁.manifest
  · obtain ⟨before, keys, hbefore, hkeys, hn⟩ := h₂.manifest
    rw [hmanifest] at hbefore hn
    refine ⟨before, keys, hbefore, fun f => ?_, hn⟩
    rw [hkeys f]
    simp only [hsends]
  · intro y hy hnot₁ hnot₂
    by_cases hy₂ : r₂.OnWay t y
    · exact h₂.dir_of_onWay ((hway y).2 hy₂) fun n hn => hnot₂ n ((hsends y n).1 hn)
    · have hy₁ := hy.resolve_right hy₂
      have hdir := h₁.dir_of_onWay hy₁ hnot₁
      have hout : ∀ x n, r₂.Sends t₁ x n → ¬ x <+: y := by
        intro x n hx hpre
        rw [hsends] at hx
        rcases hy₁ with ⟨name, -, hname⟩ | ⟨x', n', hx', hpre'⟩
        · have hlen := (hpre.trans hname).length_le
          have hdeep := (hplaces₂ x n hx).1.deep
          simp only [List.length_singleton] at hlen
          omega
        · exact (hapart x' n' x n hx' hx).2 (hpre.trans hpre')
      rcases h₂.others y hout (fun heq => h₁.not_onWay (heq ▸ hy₁)) with heq | ⟨hnone, -⟩
      · rw [heq, hdir]
      · rw [hdir] at hnone
        cases hnone
  · intro y hy₁ hy₂ hout₁ hout₂ hm₁ hm₂
    have hfirst := (h₁.others y hout₁ hm₁).resolve_right fun hno => hy₁ hno.2.2
    have hsecond := (h₂.others y (fun x n hx => hout₂ x n ((hsends x n).1 hx)) hm₂).resolve_right
      fun hno => hy₂ ((hway y).1 hno.2.2)
    rw [hsecond, hfirst]

/-- A request from elsewhere finds the same for its installation before and after one of another library
that lies apart from it. -/
theorem Request.Effects.sameNeeds (hne : l₁ ≠ l₂) (hr₂ : r₂.Detached t R) (hstandard₂ : r₂.Standard) :
    r₂.SameNeeds t t₁ R l₂ where
  sends _ _ := hr₂.sends_iff h₁.changed hstandard₂
  gives _ _ := hr₂.gives_iff h₁.changed hstandard₂
  node x source hgives := by
    obtain ⟨dir, hdir, hlisted⟩ := hgives.mem_dirs hstandard₂
    exact ((hr₂.sameUnder h₁.changed hdir source).2 hlisted).symm
  aside a ha := h₁.get?_manifests fun heq => ha.ne_manifest l₁ (by simpa [manifestNames] using heq)
  manifest := h₁.get?_manifests fun heq => hne (manifestNames_injective heq).symm
  place x n hsends hplace := (h₁.get?_way hapart hsends hplace List.prefix_rfl).resolve_right
    fun hno => hno.2.2 rfl
  way x n hsends hplace := forall₂_congr fun p hp => by
    rcases h₁.get?_way hapart hsends hplace (hp.trans (List.dropLast_prefix _)) with
      heq | ⟨hnone, hdir, -⟩
    · rw [heq]
    · simp [hnone, hdir]

end

/-! ## The other order -/

/-- The directories of a sysroot that are there can be made again. -/
theorem create_of_dirs (h : Seat t root R k) (hnull : hasNull root.text = false)
    (hfits : Fits root [".manifests"])
    (hdirs : ∀ name ∈ sysrootDirs, t.get? (R ++ [name]) = some .dir) : create root t = (.ok (), t) := by
  have hone : ∀ name ∈ sysrootDirs, Action.ensureDirs (root.within [name]) t = (.ok (), t) := by
    intro name hname
    have hsize : name.utf8ByteSize ≤ ".manifests".utf8ByteSize ∧ Plain ([] ++ [name]) := by
      simp only [sysrootDirs, List.mem_cons, List.not_mem_nil, or_false] at hname
      rcases hname with rfl | rfl | rfl <;> exact ⟨by decide, by simp; decide⟩
    have hfits' : Fits root ([] ++ [name]) := hfits.mono (List.cons_ne_nil _ _) (.cons hsize.1 .nil)
    exact h.ensureDirs_of_dir hnull hsize.2 hfits' (hdirs name hname)
  rw [create, includeDir_eq, libDir_eq, manifestDir_eq,
    Effect.bind_of_ok (hone "include" (by simp [sysrootDirs])),
    Effect.bind_of_ok (hone "lib" (by simp [sysrootDirs]))]
  exact hone ".manifests" (by simp [sysrootDirs])

/-- There are no collisions when nobody else owns what is to be installed. -/
theorem collisions_eq_nil_iff :
    collisions owned l m = [] ↔ ∀ f ∈ m.keys, ∀ o, owned.find? f = some o → o = l := by
  refine ⟨fun h f hf o ho => owner_of_no_collision h hf ho, fun h => ?_⟩
  rw [collisions, List.filter_eq_nil_iff.2 fun f hf hany => ?_, List.mergeSort_nil]
  rcases ho : owned.find? f with _ | o
  · rw [ho] at hany
    cases hany
  · rw [ho] at hany
    exact of_decide_eq_true hany (h f hf o ho)

theorem inOrder_eq (h : ∀ item, item ∈ m₁.pairs ↔ item ∈ m₂.pairs) : inOrder m₁ = inOrder m₂ := by
  refine OrderedMap.sorted_eq_of_find? fun key => Option.ext fun source => ?_
  rw [← OrderedMap.mem_pairs_iff, ← OrderedMap.mem_pairs_iff, h]

theorem mem_keys_iff (h : ∀ item, item ∈ m₁.pairs ↔ item ∈ m₂.pairs) (f : String) :
    f ∈ m₁.keys ↔ f ∈ m₂.keys := by
  rw [OrderedMap.keys, OrderedMap.keys, List.mem_map, List.mem_map]
  simp only [h]

/-- A request from outside of a sysroot without links is carried out exactly if it asks for a mapping,
nobody else owns what it asks for, and it is installable. -/
theorem Request.Aimed.run_iff (hr : r.Aimed t R) (hstandard : r.Standard) (hsite : Sited t root R k)
    (hlinks : NoLinks t R) :
    (∃ t', r.run root l t = (.ok files, t')) ↔
      r.Installable t root R l ∧ ∃ m owned, r.mapping l t = (.ok m, t) ∧
        owners root t = (.ok owned, t) ∧ collisions owned l m = [] ∧
        files = (inOrder m).map fun item => root / item.1 := by
  constructor
  · rintro ⟨t', hok⟩
    obtain ⟨m, owned, hm, howned, hnone, hfiles, -⟩ := hr.course hsite hlinks hok
    exact ⟨hr.installable hsite hlinks hok hstandard, m, owned, hm, howned, hnone, hfiles⟩
  · rintro ⟨h, m, owned, hm, howned, hnone, rfl⟩
    obtain ⟨files, t', hok⟩ := h.run hr hstandard hsite hlinks hm howned hnone
    obtain ⟨m', -, hm', -, -, rfl, -⟩ := hr.course hsite hlinks hok
    obtain rfl : m' = m := by
      rw [hm] at hm'
      cases hm'
      rfl
    exact ⟨t', hok⟩

/-- After a request its library owns what it sent, and everything else belongs to whom it belonged
before. -/
theorem Request.Aimed.owners_after (hr : r.Aimed t R) (hstandard : r.Standard) (hsite : Sited t root R k)
    (hlinks : NoLinks t R) (hok : r.run root l t = (.ok files, t')) : ∃ (m : OrderedMap String Path)
    (owned owned' : OrderedMap String Library), r.Keys t m.keys ∧
    owners root t = (.ok owned, t) ∧ owners root t' = (.ok owned', t') ∧
    (∀ f, owned'.find? f = if f ∈ m.keys then some l else owned.find? f) := by
  obtain ⟨m, owned, hm, howned, hnone, -, hinst, hlinks', -⟩ := hr.course hsite hlinks hok
  have heff := hr.effects hstandard hsite hlinks hok
  have hkeys := Request.keys_mapping hr.inward hstandard hm
  have hplaces : ∀ key ∈ m.keys, IsPlace (namesOf key) := by
    intro key hkey
    obtain ⟨item, hitem, rfl⟩ := List.mem_map.1 hkey
    obtain ⟨n, hsends⟩ := (Request.exists_item_iff hr.inward hstandard hm).1 ⟨item, hitem, rfl⟩
    exact (heff.places _ n hsends).1
  obtain ⟨owned', howned', hfind⟩ := hinst.owners hsite hlinks hlinks' (Request.hasNull_of_run hok)
    hplaces (hr.installable hsite hlinks hok hstandard).fits howned hnone
  exact ⟨m, owned, owned', hkeys, howned, howned', hfind⟩

section

variable (hr₁ : r₁.Detached t R) (hr₂ : r₂.Detached t R) (hstandard₁ : r₁.Standard)
  (hstandard₂ : r₂.Standard) (hsite : Sited t root R k) (hlinks : NoLinks t R) (hne : l₁ ≠ l₂)
  (hok : r₁.run root l₁ t = (.ok files, t₁))

include hr₁ hr₂ hstandard₁ hstandard₂ hsite hlinks hne hok

/-- What two requests send one after the other does not overlap. -/
theorem Request.Detached.apart₂ {files₂ : List Path} {t₂ : Tree}
    (hok₂ : r₂.run root l₂ t₁ = (.ok files₂, t₂))
    (hapart : ∀ x n y n', r₁.Sends t x n → r₂.Sends t y n' → (x <+: y → x = y) ∧ (y <+: x → y = x)) :
    r₁.Apart₂ r₂ t := by
  have heff := hr₁.toAimed.effects hstandard₁ hsite hlinks hok
  have haimed₂ := hr₂.aimed heff.changed
  obtain ⟨m₂, owned₂, hm₂, howned₂, hnone₂, -⟩ :=
    haimed₂.course (sited_of_seat heff.seat) heff.links hok₂
  obtain ⟨m₁, owned, owned₁, hkeys, -, howned₁, hfind⟩ :=
    hr₁.toAimed.owners_after hstandard₁ hsite hlinks hok
  obtain rfl : owned₂ = owned₁ := by
    rw [howned₂] at howned₁
    cases howned₁
    rfl
  -- what both send is owned by the library of the first one
  have hnot : ∀ x n n', r₁.Sends t x n → ¬ r₂.Sends t x n' := by
    intro x n n' hx hx'
    have hkey₂ := (Request.keys_mapping haimed₂.inward hstandard₂ hm₂ (Path.ofNames x).text).2
      ⟨x, n', (hr₂.sends_iff heff.changed hstandard₂).2 hx', rfl⟩
    refine hne (owner_of_no_collision hnone₂ hkey₂ ?_)
    rw [hfind, if_pos ((hkeys _).2 ⟨x, n, hx, rfl⟩)]
  intro x n y n' hx hy
  refine ⟨fun hpre => ?_, fun hpre => ?_⟩
  · obtain rfl := (hapart x n y n' hx hy).1 hpre
    exact hnot x n n' hx hy
  · obtain rfl := (hapart x n y n' hx hy).2 hpre
    exact hnot y n n' hx hy

/-- A request can be carried out after one of another library that lies apart from it exactly if it can
be carried out before. -/
theorem Request.Detached.run_iff_after {files₂ : List Path} (hapart : r₁.Apart₂ r₂ t) :
    (∃ t₂, r₂.run root l₂ t₁ = (.ok files₂, t₂)) ↔ ∃ t₂, r₂.run root l₂ t = (.ok files₂, t₂) := by
  have hnull := Request.hasNull_of_run hok
  have heff := hr₁.toAimed.effects hstandard₁ hsite hlinks hok
  have hinstallable₁ := hr₁.toAimed.installable hsite hlinks hok hstandard₁
  obtain ⟨m₁, owned, owned₁, hkeys, howned, howned₁, hfind⟩ :=
    hr₁.toAimed.owners_after hstandard₁ hsite hlinks hok
  have hcreate₁ : create root t₁ = (.ok (), t₁) := create_of_dirs heff.seat hnull
    (fits_manifests hinstallable₁.fits) heff.dirs
  have hsame := heff.sameNeeds hapart hne hr₂ hstandard₂
  have hinstallable : r₂.Installable t₁ root R l₂ ↔ r₂.Installable t root R l₂ :=
    ⟨fun h => h.of_sameNeeds hsame.symm hinstallable₁.created, fun h => h.of_sameNeeds hsame ⟨t₁, hcreate₁⟩⟩
  rw [(hr₂.aimed heff.changed).run_iff hstandard₂ (sited_of_seat heff.seat) heff.links,
    hr₂.toAimed.run_iff hstandard₂ hsite hlinks, hinstallable]
  refine and_congr_right fun _ => ?_
  -- the same mapping is asked for, of which nothing belongs to another library
  have hask : ∀ {m m' : OrderedMap String Path}, r₂.mapping l₂ t = (.ok m, t) →
      r₂.mapping l₂ t₁ = (.ok m', t₁) → (collisions owned₁ l₂ m' = [] ↔ collisions owned l₂ m = []) ∧
        inOrder m' = inOrder m := by
    intro m m' hm hm'
    have hitems := hr₂.mem_mapping_iff heff.changed hstandard₂ hm hm'
    refine ⟨?_, inOrder_eq hitems⟩
    rw [collisions_eq_nil_iff, collisions_eq_nil_iff]
    refine forall_congr' fun f => ?_
    rw [mem_keys_iff hitems f]
    refine imp_congr_right fun hf => ?_
    rw [hfind, if_neg fun hf₁ => ?_]
    obtain ⟨x, n, hx, rfl⟩ := (hkeys f).1 hf₁
    obtain ⟨y, n', hy, heq⟩ := (Request.keys_mapping hr₂.inward hstandard₂ hm _).1 hf
    obtain rfl := Path.Spelled.eq_of_text (hx.spelled hstandard₁) (hy.spelled hstandard₂) heq
    exact (hapart x n x n' hx hy).1 List.prefix_rfl
  constructor
  · rintro ⟨m', owned', hm', howned', hnone, hfiles⟩
    obtain ⟨m, hm⟩ := hr₂.mapping_before heff.changed hm'
    rw [howned₁] at howned'
    cases howned'
    exact ⟨m, owned, hm, howned, (hask hm hm').1.1 hnone, (hask hm hm').2 ▸ hfiles⟩
  · rintro ⟨m, owned', hm, howned', hnone, hfiles⟩
    obtain ⟨m', hm'⟩ := hr₂.mapping_after heff.changed hm
    rw [howned] at howned'
    cases howned'
    exact ⟨m', owned₁, hm', howned₁, (hask hm hm').1.2 hnone, (hask hm hm').2 ▸ hfiles⟩

end

/-- Requests of different libraries from outside of a sysroot without links, of which nothing that one
sends is on the way to what the other one sends, can be carried out in either order.  When they are
carried out one after the other, they are carried out in the other order as well, tell the same files
and lead to the same sysroot. -/
theorem Request.Detached.run_comm {tA tAB : Tree} {rA rB : Request} {lA lB : Library}
    {filesA filesB : List Path} (hA : rA.Detached t R) (hB : rB.Detached t R)
    (hstandardA : rA.Standard) (hstandardB : rB.Standard) (hsite : Sited t root R k)
    (hlinks : NoLinks t R) (hne : lA ≠ lB)
    (hapart : ∀ x n y n', rA.Sends t x n → rB.Sends t y n' → (x <+: y → x = y) ∧ (y <+: x → y = x))
    (hokA : rA.run root lA t = (.ok filesA, tA)) (hokAB : rB.run root lB tA = (.ok filesB, tAB)) :
    ∃ tB tBA, rB.run root lB t = (.ok filesB, tB) ∧ rA.run root lA tB = (.ok filesA, tBA) ∧
      ∀ y, tBA.get? (R ++ y) = tAB.get? (R ++ y) := by
  have heffA := hA.toAimed.effects hstandardA hsite hlinks hokA
  have heffAB := (hB.aimed heffA.changed).effects hstandardB (sited_of_seat heffA.seat) heffA.links hokAB
  have hapartAB := hA.apart₂ hB hstandardA hstandardB hsite hlinks hne hokA hokAB hapart
  have hapartBA : rB.Apart₂ rA t := fun x n y n' hx hy => (hapartAB y n' x n hy hx).symm
  -- the second request is carried out first, and the first one after it
  obtain ⟨tB, hokB⟩ := (hA.run_iff_after hB hstandardA hstandardB hsite hlinks hne hokA hapartAB).1
    ⟨tAB, hokAB⟩
  obtain ⟨tBA, hokBA⟩ := (hB.run_iff_after hA hstandardB hstandardA hsite hlinks hne.symm hokB
    hapartBA).2 ⟨tA, hokA⟩
  have heffB := hB.toAimed.effects hstandardB hsite hlinks hokB
  have heffBA := (hA.aimed heffB.changed).effects hstandardA (sited_of_seat heffB.seat) heffB.links hokBA
  -- both orders do what the two requests do
  have hboth := heffA.both hapartAB hne heffAB fun x n => hB.sends_iff heffA.changed hstandardB
  have hboth' := heffB.both hapartBA hne.symm heffBA fun x n => hA.sends_iff heffB.changed hstandardA
  exact ⟨tB, tBA, hokB, hokBA, fun y => hboth'.symm.get?_eq hboth y⟩

/-- A directory of headers, a stage and an empty sysroot. -/
def headersAndStage : Tree where
  entries := [(["h"], .dir), (["h", "a"], .file [1] false), (["st"], .dir), (["st", "include"], .dir),
    (["st", "include", "b"], .file [2] true), (["st", "lib"], .dir), (["s"], .dir)]
  nodup := by decide
  root_free := by decide
  housed := by decide
  named := by decide +kernel
  home := []

/-- The request to install the headers. -/
def plainHeaders : Request := .headers ⟨.root, ["h"]⟩ ""

/-- The request to install the stage. -/
def plainStage : Request :=
  .stage { stage := ⟨.root, ["st"]⟩, expected := [⟨.root, ["st", "include", "b"]⟩] }

theorem elsewhere_headersAndStage {D : Location}
    (hD : D ∈ [["h"], ["st", "include"], ["st", "lib"], ["st", "include", "b"]]) :
    Elsewhere headersAndStage ["s"] ⟨.root, D⟩ D := by
  have hlinks : NoLinks headersAndStage [] := noLinks_of_entries (by decide)
  have hwhere : (∀ name ∈ D.getLast?, isName name = true) ∧
      headersAndStage.get? D.dropLast = some .dir ∧ ¬ ["s"] <+: D ∧ ¬ D <+: ["s"] ∧ Fits ⟨.root, []⟩ D := by
    fin_cases hD <;> decide +kernel
  exact ⟨rfl, hwhere.1, hwhere.2.1, hwhere.2.2.1, hwhere.2.2.2.1, hlinks.within D, hwhere.2.2.2.2⟩

theorem detached_plainHeaders : plainHeaders.Detached headersAndStage ["s"] := by
  refine Request.detached_of_elsewhere ⟨fun dir place hin => ?_, nofun⟩ fun p hp => ?_
  · obtain ⟨rfl, rfl⟩ : dir = ⟨.root, ["h"]⟩ ∧ place = "" := by
      simpa [Request.headed, plainHeaders, eq_comm] using hin
    decide +kernel
  · obtain rfl : p = ⟨.root, ["h"]⟩ := by
      simpa [Request.dirs, Request.headed, Request.staged, Request.expected, plainHeaders] using hp
    exact ⟨_, elsewhere_headersAndStage (by simp)⟩

theorem detached_plainStage : plainStage.Detached headersAndStage ["s"] := by
  refine Request.detached_of_elsewhere ⟨nofun, fun stage name hin => ?_⟩ fun p hp => ?_
  · obtain ⟨name', hname, heq⟩ := List.mem_map.1 hin
    cases heq
    exact (section_of_standard hname).1
  · have hall : plainStage.dirs ++ plainStage.expected =
        [["st", "include"], ["st", "lib"], ["st", "include", "b"]].map (Path.mk .root) := by
      decide +kernel
    obtain ⟨D, hD, rfl⟩ := List.mem_map.1 (hall ▸ hp)
    exact ⟨D, elsewhere_headersAndStage (List.mem_cons_of_mem _ hD)⟩

theorem apart_headersAndStage : plainHeaders.Apart₂ plainStage headersAndStage := by
  -- each request sends one file
  have hbeneath : ∀ {D p n}, D ∈ [["h"], ["st", "include"], ["st", "lib"], ["st", "include", "b"]] →
      Beneath headersAndStage ⟨.root, D⟩ p n →
        p ≠ [] ∧ (D ++ p, n) ∈ headersAndStage.entries ∧ n ≠ .dir := by
    rintro D p n hD ⟨D', hlocate, hp, hn, hne⟩
    rw [(elsewhere_headersAndStage hD).locate (.of_grown (.refl _) (.refl _ _))] at hlocate
    cases hlocate
    exact ⟨hp, (get?_eq_some_iff (List.append_ne_nil_of_right_ne_nil D hp)).1 hn, hne⟩
  rintro x n y n' ⟨p, rfl, hp⟩ hy
  obtain ⟨name, hname, q, rfl, hq⟩ := hy.resolve_right fun hno => by
    obtain ⟨-, dir, place, hheaders, -⟩ := hno
    cases hheaders
  obtain ⟨hne, hmem, -⟩ := hbeneath (by simp) hp
  obtain ⟨rfl, -⟩ : p = ["a"] ∧ n = .file [1] false := by
    simpa [headersAndStage, hne] using hmem
  simp only [standardSections, List.mem_cons, List.not_mem_nil, or_false] at hname
  rcases hname with rfl | rfl
  · obtain ⟨hne', hmem', -⟩ := hbeneath (D := ["st", "include"]) (by simp) hq
    obtain ⟨rfl, -⟩ : q = ["b"] ∧ n' = .file [2] true := by
      simpa [headersAndStage, hne'] using hmem'
    decide
  · obtain ⟨hne', hmem', -⟩ := hbeneath (D := ["st", "lib"]) (by simp) hq
    simp [headersAndStage, hne'] at hmem'

theorem run_comm_headersAndStage : ∃ filesA filesB tA tAB tB tBA,
    plainHeaders.run ⟨.root, ["s"]⟩ .libc headersAndStage = (.ok filesA, tA) ∧
      plainStage.run ⟨.root, ["s"]⟩ .dlmalloc tA = (.ok filesB, tAB) ∧
      plainStage.run ⟨.root, ["s"]⟩ .dlmalloc headersAndStage = (.ok filesB, tB) ∧
      plainHeaders.run ⟨.root, ["s"]⟩ .libc tB = (.ok filesA, tBA) ∧
      ∀ y, tBA.get? (["s"] ++ y) = tAB.get? (["s"] ++ y) := by
  have hseat : Seat headersAndStage ⟨.root, ["s"]⟩ ["s"] linkBudget :=
    (seat_root headersAndStage).within (plain_cons.2 ⟨by decide, plain_nil⟩) (by decide)
  have hlinks : NoLinks headersAndStage ["s"] := (noLinks_of_entries (by decide)).within (R := []) ["s"]
  have hheaders : (plainHeaders.run ⟨.root, ["s"]⟩ .libc headersAndStage).1.toOption.isSome = true := by
    decide +kernel
  have hstage : (plainStage.run ⟨.root, ["s"]⟩ .dlmalloc headersAndStage).1.toOption.isSome = true := by
    decide +kernel
  rcases hokA : plainHeaders.run ⟨.root, ["s"]⟩ .libc headersAndStage with ⟨fault | filesA, tA⟩
  · rw [hokA] at hheaders
    cases hheaders
  rcases hokB : plainStage.run ⟨.root, ["s"]⟩ .dlmalloc headersAndStage with ⟨fault | filesB, tB⟩
  · rw [hokB] at hstage
    cases hstage
  obtain ⟨tAB, hokAB⟩ := (detached_plainHeaders.run_iff_after detached_plainStage trivial rfl
    (sited_of_seat hseat) hlinks (by decide) hokA apart_headersAndStage).2 ⟨tB, hokB⟩
  obtain ⟨tB', tBA, hokB', hokBA, hsame⟩ := Request.Detached.run_comm detached_plainHeaders
    detached_plainStage trivial rfl (sited_of_seat hseat) hlinks (by decide) (fun x n y n' hx hy =>
      have hno := apart_headersAndStage x n y n' hx hy
      ⟨fun hpre => absurd hpre hno.1, fun hpre => absurd hpre hno.2⟩) hokA hokAB
  exact ⟨filesA, filesB, tA, tAB, tB', tBA, rfl, hokAB, hokB.symm.trans hokB', hokBA, hsame⟩

end Sysroot.Install

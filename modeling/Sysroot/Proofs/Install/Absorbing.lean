import Sysroot.Proofs.Install.Commuting

/-!
# Headers that are installed early

A request covers another one of the same library when it sends something to every place that the other
one does (`Request.Covers`).  What the other one leaves is then replaced by what the covering request
sends, so that carrying it out first makes no difference to the sysroot (`Request.Effects.get?_eq_covering`).
It can be carried out first when its sources can be read, and the covering request can still be carried
out when there is room to set aside what is there by then (`Request.Detached.run_covered_iff`).  A stage
that comes with headers covers the headers (`Request.covers_headers`), so that installing these early is
absorbed by the installation of the stage (`Request.Detached.run_absorbs`), unless a path gets too long
or the headers go where the manifests are (`not_installsAfterHeader`).
-/

namespace Sysroot.Install

open Sysroot.Tree Sysroot.Tree.Action

variable {t t₁ t₂ t' : Tree} {root dir : Path} {R : Location} {k : Nat} {l : Library}
  {r r₁ r₂ : Request} {s : Source} {place : String} {m₁ : OrderedMap String Path}
  {files files₁ files₂ : List Path} {x y : List String} {n : Option Node}

/-! ## Covering -/

/-- Whether a request sends something to every place that another one sends something to. -/
def Request.Covers (r₂ r₁ : Request) (t : Tree) : Prop :=
  ∀ x n, r₁.Sends t x n → ∃ n', r₂.Sends t x n'

/-- A stage that comes with headers covers the headers. -/
theorem Request.covers_headers (hheaders : s.headers = some (dir, place)) :
    (Request.stage s).Covers (.headers dir place) t := by
  intro x n hsends
  by_cases hstaged : ∃ n', StageSends t s.stage x n'
  · exact hstaged.imp fun _ => .inl
  · exact ⟨n, .inr ⟨hstaged, dir, place, hheaders, hsends⟩⟩

/-- The headers of a stage that does not depend on the sysroot do not depend on it either. -/
theorem Request.Detached.headers (h : (Request.stage s).Detached t R)
    (hheaders : s.headers = some (dir, place)) : (Request.headers dir place).Detached t R := by
  have hheaded : ∀ {d p}, (d, p) ∈ (Request.headers dir place).headed →
      (d, p) ∈ (Request.stage s).headed := fun hin => by
    rw [List.mem_singleton.1 hin]
    exact Option.mem_toList.2 hheaders
  have hdirs : ∀ d ∈ (Request.headers dir place).dirs, d ∈ (Request.stage s).dirs := fun d hd => by
    rw [List.mem_singleton.1 hd]
    exact mem_dirs_of_headed (hheaded (List.mem_singleton_self _))
  exact ⟨⟨⟨fun d p hin => h.inward.1 d p (hheaded hin), nofun⟩, fun d hd => h.outside d (hdirs d hd)⟩,
    fun d hd => h.missing d (hdirs d hd), nofun⟩

/-- The headers of a stage ask for a mapping where the stage does. -/
theorem Request.mapping_headers {m : OrderedMap String Path} (hheaders : s.headers = some (dir, place))
    (hm : (Request.stage s).mapping l t = (.ok m, t)) :
    ∃ m', (Request.headers dir place).mapping l t = (.ok m', t) := by
  obtain ⟨-, pairs, staged, hpairs, -⟩ := mapping_stage hm
  rw [hheaders] at hpairs
  have hpairs' : headerMapping l dir place t = (.ok pairs, t) := hpairs
  exact ⟨.ofList pairs, by rw [Request.mapping, Effect.bind_of_ok hpairs']; rfl⟩

/-! ## What is carried out first -/

/-- A request is installable where one is that covers it, if its sources can be found. -/
theorem Request.Installable.of_covers (h : r₂.Installable t root R l) (hcovers : r₂.Covers r₁ t)
    (hsource : ∀ x source, r₁.Gives t x source → ∃ n, t.node? source = some n) :
    r₁.Installable t root R l where
  created := h.created
  aside := h.aside
  place x n hx := have ⟨n', hx'⟩ := hcovers x n hx
    h.place x n' hx'
  source := hsource
  apart x n y n' hx hy := have ⟨_, hx'⟩ := hcovers x n hx
    have ⟨_, hy'⟩ := hcovers y n' hy
    h.apart x _ y _ hx' hy'
  way x n hx := have ⟨n', hx'⟩ := hcovers x n hx
    h.way x n' hx'
  room x n hx := have ⟨n', hx'⟩ := hcovers x n hx
    h.room x n' hx'
  fits := h.fits
  listed := h.listed

section

variable (hr₁ : r₁.Detached t R) (hr₂ : r₂.Detached t R) (hstandard₁ : r₁.Standard)
  (hstandard₂ : r₂.Standard) (hcovers : r₂.Covers r₁ t)

include hr₁ hr₂ hstandard₁ hstandard₂ hcovers

/-- A request that asks for a mapping can be carried out where one can that covers it, if its sources
can be found. -/
theorem Request.Detached.run_of_covers (hsite : Sited t root R k) (hlinks : NoLinks t R)
    (hm₁ : r₁.mapping l t = (.ok m₁, t))
    (hsource : ∀ x source, r₁.Gives t x source → ∃ n, t.node? source = some n)
    (hok : r₂.run root l t = (.ok files, t')) : ∃ files₁ t₁, r₁.run root l t = (.ok files₁, t₁) := by
  obtain ⟨hinstallable, m, owned, hm, howned, hnone, -⟩ :=
    (hr₂.toAimed.run_iff hstandard₂ hsite hlinks).1 ⟨t', hok⟩
  refine (hinstallable.of_covers hcovers hsource).run hr₁.toAimed hstandard₁ hsite hlinks hm₁ howned
    (collisions_eq_nil_iff.2 fun f hf => collisions_eq_nil_iff.1 hnone f ?_)
  obtain ⟨x, n, hx, rfl⟩ := (Request.keys_mapping hr₁.inward hstandard₁ hm₁ f).1 hf
  obtain ⟨n', hx'⟩ := hcovers x n hx
  exact (Request.keys_mapping hr₂.inward hstandard₂ hm _).2 ⟨x, n', hx', rfl⟩

end

/-! ## What is carried out afterwards -/

section

variable (h₁ : r₁.Effects t t₁ root R k l) (hcovers : r₂.Covers r₁ t)

include h₁ hcovers

/-- At the places of a covering request there is what was there before, or what was sent there. -/
theorem Request.Effects.get?_covered (hinstallable : r₂.Installable t root R l) {n₂ : Node}
    (hx : r₂.Sends t x n₂) (hnot : ∀ n, ¬ r₁.Sends t x n) :
    t₁.get? (R ++ x) = t.get? (R ++ x) := by
  have hplace := (hinstallable.place x n₂ hx).1
  have hout : ∀ y n, r₁.Sends t y n → ¬ y <+: x := fun y n hy hpre => by
    obtain ⟨n', hy'⟩ := hcovers y n hy
    exact hnot n (hinstallable.apart y n' x n₂ hy' hx hpre ▸ hy)
  refine (h₁.others x hout fun heq => hplace.not_below_manifest (l := l) (by rw [heq])).resolve_right ?_
  rintro ⟨-, -, ⟨name, -, hpre⟩ | ⟨y, n, hy, hpre⟩⟩
  · have hlen := hpre.length_le
    have hdeep := hplace.deep
    simp only [List.length_singleton] at hlen
    omega
  · obtain ⟨n', hy'⟩ := hcovers y n hy
    exact hnot n (hinstallable.apart x n₂ y n' hx hy' hpre ▸ hy)

/-- A covering request is installable afterwards when there is room to set aside what was sent. -/
theorem Request.Effects.installable_covering (hr₂ : r₂.Detached t R) (hstandard₂ : r₂.Standard)
    (hinstallable : r₂.Installable t root R l)
    (hroom : ∀ x n, r₁.Sends t x n → ∀ a, IsAside l a → Fits root (stash a ++ x)) :
    r₂.Installable t₁ root R l := by
  have hsends : ∀ {x n}, r₂.Sends t₁ x n ↔ r₂.Sends t x n := hr₂.sends_iff h₁.changed hstandard₂
  obtain ⟨a, ha, hfits, hfree⟩ := hinstallable.aside
  obtain ⟨before, keys, -, -, hmanifest⟩ := h₁.manifest
  refine ⟨⟨t₁, create_of_dirs h₁.seat h₁.seat.null (fits_manifests hinstallable.fits) h₁.dirs⟩,
    ⟨a, ha, hfits, (h₁.get?_manifests fun heq => ha.ne_manifest l ?_).trans hfree⟩,
    fun x n hx => hinstallable.place x n (hsends.1 hx), fun x source hgives => ?_,
    fun x n y n' hx hy => hinstallable.apart x n y n' (hsends.1 hx) (hsends.1 hy),
    fun x n hx p hp => ?_, fun x n hx hsome => ?_, hinstallable.fits,
    ⟨_, by rw [hmanifest]; exact filesOf_manifestBytes root l _⟩⟩
  · simpa [manifestNames] using heq
  · have hgives' := (hr₂.gives_iff h₁.changed hstandard₂).1 hgives
    obtain ⟨n, hn⟩ := hinstallable.source x source hgives'
    obtain ⟨dir, hdir, hlisted⟩ := hgives'.mem_dirs hstandard₂
    exact ⟨n, ((hr₂.sameUnder h₁.changed hdir source).2 hlisted).symm.trans hn⟩
  · -- nothing was sent to a place above
    have hx' := hsends.1 hx
    have hplace := (hinstallable.place x n hx').1
    have hpre : p <+: x := hp.trans (List.dropLast_prefix x)
    have hout : ∀ y n', r₁.Sends t y n' → ¬ y <+: p := fun y n' hy hyp => by
      obtain ⟨n'', hy'⟩ := hcovers y n' hy
      obtain rfl := hinstallable.apart y n'' x n hy' hx' (hyp.trans hpre)
      have hlen := (hyp.trans hp).length_le
      have hdeep := hplace.deep
      rw [List.length_dropLast] at hlen
      omega
    rcases h₁.others p hout fun heq => hplace.not_below_manifest (l := l) (heq ▸ hpre) with
      heq | ⟨-, hdir, -⟩
    · rw [heq]
      exact hinstallable.way x n hx' p hp
    · exact .inr hdir
  · by_cases hcovered : ∃ n', r₁.Sends t x n'
    · exact hroom x _ hcovered.choose_spec
    · push Not at hcovered
      rw [h₁.get?_covered hcovers hinstallable (hsends.1 hx) hcovered] at hsome
      exact hinstallable.room x n (hsends.1 hx) hsome

/-- A covering request records what it would have recorded before. -/
theorem Request.Effects.records_covering (hsends : ∀ x n, r₂.Sends t₁ x n ↔ r₂.Sends t x n)
    (h : r₂.Records t₁ root R l n) : r₂.Records t root R l n := by
  obtain ⟨before, keys₁, hbefore, hkeys₁, hmanifest⟩ := h₁.manifest
  obtain ⟨listed, keys, hlisted, hkeys, rfl⟩ := h
  rw [hmanifest] at hlisted ⊢
  have hread : filesOf root l (manifestBytes l (before ++ keys₁)) = .ok listed := hlisted
  rw [filesOf_manifestBytes] at hread
  have hset : sortedSet (listed ++ keys) = sortedSet (before ++ keys) := sortedSet_eq fun f => by
    rw [← Except.ok.inj hread, List.mem_append, List.mem_append, mem_sortedSet, mem_sortedSet,
      List.mem_append, or_assoc]
    refine or_congr_right (or_iff_right_of_imp fun hf => ?_)
    obtain ⟨x, n, hx, rfl⟩ := (hkeys₁ f).1 hf
    obtain ⟨n', hx'⟩ := hcovers x n hx
    exact (hkeys _).2 ⟨x, n', (hsends x n').2 hx', rfl⟩
  refine ⟨before, keys, hbefore, fun f => ?_, ?_⟩
  · rw [hkeys f]
    simp only [hsends]
  · rw [manifestBytes, manifestBytes, manifestJson, manifestJson, hset]
    rfl

/-- A covering request leads to the same sysroot with what it covers carried out first and without. -/
theorem Request.Effects.get?_eq_covering (hsends : ∀ x n, r₂.Sends t₁ x n ↔ r₂.Sends t x n)
    (h : r₂.Effects t t' root R k l) (h₂ : r₂.Effects t₁ t₂ root R k l) (y : List String) :
    t₂.get? (R ++ y) = t'.get? (R ++ y) := by
  have hway : r₂.OnWay t₁ y ↔ r₂.OnWay t y := by simp only [Request.OnWay, hsends]
  by_cases hsent : ∃ n, r₂.Sends t y n
  · obtain ⟨n, hy⟩ := hsent
    rw [h₂.sent y n ((hsends y n).2 hy), h.sent y n hy]
  push Not at hsent
  by_cases hbelow : ∃ x n, r₂.Sends t x n ∧ x <+: y
  · -- below what was sent there is nothing
    obtain ⟨x, n, hx, more, rfl⟩ := hbelow
    have hmore : more ≠ [] := by
      rintro rfl
      rw [List.append_nil] at hsent
      exact hsent n hx
    have hfile : some n ≠ some Node.dir := fun heq => (h.places x n hx).2 (Option.some.inj heq)
    rw [← List.append_assoc, get?_append_eq_none (by rwa [h₂.sent x n ((hsends x n).2 hx)]) hmore,
      get?_append_eq_none (by rwa [h.sent x n hx]) hmore]
  push Not at hbelow
  by_cases hy : y = manifestNames l
  · rw [hy]
    exact (h₁.records_covering hcovers hsends h₂.manifest).unique h.manifest
  by_cases hy₂ : r₂.OnWay t y
  · rw [h₂.dir_of_onWay (hway.2 hy₂) fun n hn => hsent n ((hsends y n).1 hn), h.dir_of_onWay hy₂ hsent]
  have hway₁ : ¬ r₁.OnWay t y := by
    refine fun hy₁ => hy₂ (hy₁.imp id ?_)
    rintro ⟨x, n, hx, hpre⟩
    obtain ⟨n', hx'⟩ := hcovers x n hx
    exact ⟨x, n', hx', hpre⟩
  rw [(h₂.others y (fun x n hx => hbelow x n ((hsends x n).1 hx)) hy).resolve_right
      fun hno => hy₂ (hway.1 hno.2.2),
    (h₁.others y (fun x n hx hpre => ?_) hy).resolve_right fun hno => hway₁ hno.2.2,
    (h.others y hbelow hy).resolve_right fun hno => hy₂ hno.2.2]
  obtain ⟨n', hx'⟩ := hcovers x n hx
  exact hbelow x n' hx' hpre

end

/-! ## One after the other -/

section

variable (hr₁ : r₁.Detached t R) (hr₂ : r₂.Detached t R) (hstandard₁ : r₁.Standard)
  (hstandard₂ : r₂.Standard) (hcovers : r₂.Covers r₁ t) (hsite : Sited t root R k)
  (hlinks : NoLinks t R) (hok : r₂.run root l t = (.ok files, t'))

include hr₁ hr₂ hstandard₁ hstandard₂ hcovers hsite hlinks hok

/-- A request and one that covers it can be carried out one after the other, where the covering one can
be on its own, exactly if the sources of the first one can be found and there is room to set aside what
it leaves. -/
theorem Request.Detached.run_covered_iff (hm₁ : r₁.mapping l t = (.ok m₁, t)) :
    (∃ files₁ t₁ files₂ t₂, r₁.run root l t = (.ok files₁, t₁) ∧
        r₂.run root l t₁ = (.ok files₂, t₂)) ↔
      (∀ x source, r₁.Gives t x source → ∃ n, t.node? source = some n) ∧
        ∀ x n, r₁.Sends t x n → ∀ a, IsAside l a → Fits root (stash a ++ x) := by
  constructor
  · rintro ⟨files₁, t₁, files₂, t₂, hok₁, hok₂⟩
    have heff := hr₁.toAimed.effects hstandard₁ hsite hlinks hok₁
    have hagain := (hr₂.aimed heff.changed).installable (sited_of_seat heff.seat) heff.links hok₂
      hstandard₂
    refine ⟨(hr₁.toAimed.installable hsite hlinks hok₁ hstandard₁).source, fun x n hx => ?_⟩
    obtain ⟨n', hx'⟩ := hcovers x n hx
    exact hagain.room x n' ((hr₂.sends_iff heff.changed hstandard₂).2 hx')
      (by rw [heff.sent x n hx]; exact nofun)
  · rintro ⟨hsource, hroom⟩
    obtain ⟨files₁, t₁, hok₁⟩ := hr₁.run_of_covers hr₂ hstandard₁ hstandard₂ hcovers hsite hlinks hm₁
      hsource hok
    have heff := hr₁.toAimed.effects hstandard₁ hsite hlinks hok₁
    have hinstallable := (hr₂.toAimed.installable hsite hlinks hok hstandard₂)
    obtain ⟨-, m, owned, hm, howned, hnone, -⟩ :=
      (hr₂.toAimed.run_iff hstandard₂ hsite hlinks).1 ⟨t', hok⟩
    obtain ⟨m', owned', owned₁, hkeys, howned', howned₁, hfind⟩ :=
      hr₁.toAimed.owners_after hstandard₁ hsite hlinks hok₁
    rw [howned] at howned'
    cases howned'
    obtain ⟨m₂, hm₂⟩ := hr₂.mapping_after heff.changed hm
    have hnone₂ : collisions owned₁ l m₂ = [] := collisions_eq_nil_iff.2 fun f hf o ho => by
      rw [hfind] at ho
      split at ho
      · exact (Option.some.inj ho).symm
      · refine collisions_eq_nil_iff.1 hnone f ?_ o ho
        exact (mem_keys_iff (hr₂.mem_mapping_iff heff.changed hstandard₂ hm hm₂) f).1 hf
    obtain ⟨files₂, t₂, hok₂⟩ := (heff.installable_covering hcovers hr₂ hstandard₂ hinstallable hroom).run
      (hr₂.aimed heff.changed) hstandard₂ (sited_of_seat heff.seat) heff.links hm₂ howned₁ hnone₂
    exact ⟨files₁, t₁, files₂, t₂, hok₁, hok₂⟩

/-- Carried out first, what a request covers changes neither what is told of the request nor the sysroot
that it leads to. -/
theorem Request.Detached.run_covered (hok₁ : r₁.run root l t = (.ok files₁, t₁))
    (hok₂ : r₂.run root l t₁ = (.ok files₂, t₂)) :
    files₂ = files ∧ ∀ y, t₂.get? (R ++ y) = t'.get? (R ++ y) := by
  have heff₁ := hr₁.toAimed.effects hstandard₁ hsite hlinks hok₁
  have hr₂' := hr₂.aimed heff₁.changed
  obtain ⟨-, m, -, hm, -, -, rfl⟩ := (hr₂.toAimed.run_iff hstandard₂ hsite hlinks).1 ⟨t', hok⟩
  obtain ⟨-, m₂, -, hm₂, -, -, rfl⟩ :=
    (hr₂'.run_iff hstandard₂ (sited_of_seat heff₁.seat) heff₁.links).1 ⟨t₂, hok₂⟩
  refine ⟨by rw [inOrder_eq (hr₂.mem_mapping_iff heff₁.changed hstandard₂ hm hm₂)], ?_⟩
  exact heff₁.get?_eq_covering hcovers (fun x n => hr₂.sends_iff heff₁.changed hstandard₂)
    (hr₂.toAimed.effects hstandard₂ hsite hlinks hok)
    (hr₂'.effects hstandard₂ (sited_of_seat heff₁.seat) heff₁.links hok₂)

end

/-! ## Headers -/

/-- What is below a directory outside of a sysroot can be found exactly if its path can be asked about. -/
theorem Outside.exists_node?_iff {p : List String} {n : Node} (h : Outside t R dir)
    (hp : Beneath t dir p n) : (∃ n', t.node? (dir.within p) = some n') ↔ Fits dir p := by
  obtain ⟨D, hlocate, hne, hn, -⟩ := hp
  obtain ⟨-, hthere⟩ := h.locate_within hlocate hne hn (.of_grown (.refl t) (.refl R t)) .target
  constructor
  · rintro ⟨n', hn'⟩
    by_contra hno
    rw [node?, locate_of_not_fits hno] at hn'
    cases hn'
  · intro hfits
    exact ⟨n, by rw [node?, hthere hfits]; exact hn⟩

/-- Let a stage with headers, from outside of a sysroot without links, be installed.  Its headers could
have been installed on their own before exactly if no path is too long, neither that of a header nor
that of where it is set aside when the stage is installed.  This would have changed neither what is told
of the installation nor the sysroot that it leads to. -/
theorem Request.Detached.run_absorbs (hs : (Request.stage s).Detached t R)
    (hstandard : (Request.stage s).Standard) (hheaders : s.headers = some (dir, place))
    (hsite : Sited t root R k) (hlinks : NoLinks t R)
    (hok : (Request.stage s).run root l t = (.ok files, t')) :
    ((∃ files₁ t₁ files₂ t₂, (Request.headers dir place).run root l t = (.ok files₁, t₁) ∧
        (Request.stage s).run root l t₁ = (.ok files₂, t₂)) ↔
      ∀ p n, Beneath t dir p n → Fits dir p ∧
        ∀ a, IsAside l a → Fits root (stash a ++ ("include" :: (Path.ofText place).parts ++ p))) ∧
    ∀ files₁ t₁ files₂ t₂, (Request.headers dir place).run root l t = (.ok files₁, t₁) →
      (Request.stage s).run root l t₁ = (.ok files₂, t₂) →
      files₂ = files ∧ ∀ y, t₂.get? (R ++ y) = t'.get? (R ++ y) := by
  have hdetached := hs.headers hheaders
  have hcovers := Request.covers_headers (t := t) hheaders
  have hdir : dir ∈ (Request.headers dir place).dirs := List.mem_singleton_self dir
  obtain ⟨-, m, -, hm, -⟩ := (hs.toAimed.run_iff hstandard hsite hlinks).1 ⟨t', hok⟩
  obtain ⟨m₁, hm₁⟩ := Request.mapping_headers hheaders hm
  refine ⟨(hdetached.run_covered_iff hs trivial hstandard hcovers hsite hlinks hok hm₁).trans ?_,
    fun files₁ t₁ files₂ t₂ hok₁ hok₂ =>
      hdetached.run_covered hs trivial hstandard hcovers hsite hlinks hok hok₁ hok₂⟩
  constructor
  · rintro ⟨hsource, hroom⟩ p n hp
    have hgives : (Request.headers dir place).Gives t ("include" :: (Path.ofText place).parts ++ p)
        (dir.within p) := ⟨p, rfl, rfl, exists_beneath_iff.1 ⟨n, hp⟩⟩
    exact ⟨((hdetached.outside dir hdir).exists_node?_iff hp).1 (hsource _ _ hgives),
      hroom _ n ⟨p, rfl, hp⟩⟩
  · intro h
    refine ⟨?_, ?_⟩
    · rintro x source ⟨p, rfl, rfl, hlisted⟩
      obtain ⟨n, hp⟩ := exists_beneath_iff.2 hlisted
      exact ((hdetached.outside dir hdir).exists_node?_iff hp).2 (h p n hp).1
    · rintro x n ⟨p, rfl, hp⟩
      exact (h p n hp).2

theorem detached_commonRequest : commonRequest.Detached commonHeader ["s"] := by
  refine Request.detached_of_elsewhere aimed_commonRequest.inward fun p hp => ?_
  have hall : commonRequest.dirs ++ commonRequest.expected =
      [["h"], ["st", "include"], ["st", "lib"]].map (Path.mk .root) := by
    decide +kernel
  obtain ⟨D, hD, rfl⟩ := List.mem_map.1 (hall ▸ hp)
  have hlinks : NoLinks commonHeader [] := noLinks_of_entries (by decide)
  have hwhere : (∀ name ∈ D.getLast?, isName name = true) ∧ commonHeader.get? D.dropLast = some .dir ∧
      ¬ ["s"] <+: D ∧ ¬ D <+: ["s"] ∧ Fits ⟨.root, []⟩ D := by
    fin_cases hD <;> decide +kernel
  exact ⟨D, rfl, hwhere.1, hwhere.2.1, hwhere.2.2.1, hwhere.2.2.2.1, hlinks.within D, hwhere.2.2.2.2⟩

theorem run_absorbs_commonHeader : ∃ files t' files₁ t₁ t₂,
    commonRequest.run ⟨.root, ["s"]⟩ .libc commonHeader = (.ok files, t') ∧
      (Request.headers ⟨.root, ["h"]⟩ "").run ⟨.root, ["s"]⟩ .libc commonHeader = (.ok files₁, t₁) ∧
      commonRequest.run ⟨.root, ["s"]⟩ .libc t₁ = (.ok files, t₂) ∧
      ∀ y, t₂.get? (["s"] ++ y) = t'.get? (["s"] ++ y) := by
  have hok : (commonRequest.run ⟨.root, ["s"]⟩ .libc commonHeader).1.toOption.isSome = true := by
    decide +kernel
  rcases hrun : commonRequest.run ⟨.root, ["s"]⟩ .libc commonHeader with ⟨fault | files, t'⟩
  · rw [hrun] at hok
    cases hok
  have hseat : Seat commonHeader ⟨.root, ["s"]⟩ ["s"] linkBudget :=
    (seat_root commonHeader).within (plain_cons.2 ⟨by decide, plain_nil⟩) (by decide)
  obtain ⟨hiff, hsame⟩ := Request.Detached.run_absorbs detached_commonRequest rfl
    (rfl : _ = some (Path.mk .root ["h"], "")) (sited_of_seat hseat) (noLinks_of_entries (by decide)) hrun
  have hshort : ∀ p n, Beneath commonHeader ⟨.root, ["h"]⟩ p n → Fits ⟨.root, ["h"]⟩ p ∧
      ∀ a, IsAside .libc a →
        Fits ⟨.root, ["s"]⟩ (stash a ++ ("include" :: (Path.ofText "").parts ++ p)) := by
    rintro p n ⟨D, hlocate, hp, hn, -⟩
    obtain rfl : D = ["h"] := by
      have hhere : commonHeader.locate ⟨.root, ["h"]⟩ = .ok ["h"] := by decide +kernel
      exact Except.ok.inj (hlocate.symm.trans hhere)
    have hmem := (get?_eq_some_iff (List.append_ne_nil_of_right_ne_nil _ hp)).1 hn
    obtain ⟨rfl, -⟩ : p = ["a"] ∧ n = .file [1] false := by
      simpa [commonHeader, hp] using hmem
    exact ⟨by decide +kernel, fun a ha =>
      (IsAside.fits_iff ⟨0, rfl⟩ ha).1 (by decide +kernel)⟩
  obtain ⟨files₁, t₁, files₂, t₂, hok₁, hok₂⟩ := hiff.2 hshort
  obtain ⟨rfl, heq⟩ := hsame files₁ t₁ files₂ t₂ hok₁ hok₂
  exact ⟨files₂, t', files₁, t₁, t₂, rfl, hok₁, hok₂, heq⟩

/-! ## What may keep headers from being installed early -/

/-- The text of an absolute path has a slash before each component. -/
theorem size_text_root {names : List String} (hne : names ≠ []) :
    (Path.mk .root names).text.utf8ByteSize = (names.map fun name => name.utf8ByteSize + 1).sum := by
  rw [Path.size_text_of_ne (.inr hne)]
  show 1 + (Text.join "/" names).utf8ByteSize = _
  induction names with
  | nil => exact absurd rfl hne
  | cons name rest ih =>
    by_cases hrest : rest = []
    · rw [hrest, Text.join, String.intercalate_singleton, List.map_singleton, List.sum_singleton,
        Nat.add_comm]
    · have hjoin : (Text.join "/" (name :: rest)).utf8ByteSize =
          name.utf8ByteSize + 1 + (Text.join "/" rest).utf8ByteSize := by
        rw [Text.join, show name :: rest = [name] ++ rest from rfl,
          String.intercalate_append_of_ne_nil (List.cons_ne_nil name []) hrest,
          String.intercalate_singleton, String.utf8ByteSize_append, String.utf8ByteSize_append]
        rfl
      rw [List.map_cons, List.sum_cons, ← ih hrest, hjoin]
      omega

/-- A header, an empty stage and an empty sysroot. -/
def oneHeader : Tree where
  entries := [(["h"], .dir), (["h", "zlib.json"], .file [1] false), (["st"], .dir), (["s"], .dir)]
  nodup := by decide
  root_free := by decide
  housed := by decide
  named := by decide +kernel
  home := []

/-- The request to install the header at a place. -/
def headerAt (place : String) : Request := .headers ⟨.root, ["h"]⟩ place

/-- The request to install the stage and the header at a place. -/
def stageAt (place : String) : Request :=
  .stage { stage := ⟨.root, ["st"]⟩, headers := some (⟨.root, ["h"]⟩, place) }

/-- Whether the stage can be installed after its header if it can be on its own. -/
def InstallsAfterHeader (place : String) : Prop :=
  (∃ files t', (stageAt place).run ⟨.root, ["s"]⟩ .libc oneHeader = (.ok files, t')) →
    ∃ files₁ t₁ files₂ t₂, (headerAt place).run ⟨.root, ["s"]⟩ .libc oneHeader = (.ok files₁, t₁) ∧
      (stageAt place).run ⟨.root, ["s"]⟩ .libc t₁ = (.ok files₂, t₂)

/-- Names that are long together. -/
def longNames : List String := List.replicate 127 "abcdefghijklmnopqrstuvwxyz01234"

theorem plain_longNames : Plain longNames := fun name hname => by
  rw [List.eq_of_mem_replicate hname]
  decide +kernel

theorem elsewhere_oneHeader {D : Location} (hD : D ∈ [["h"], ["st", "include"], ["st", "lib"]]) :
    Elsewhere oneHeader ["s"] ⟨.root, D⟩ D := by
  have hlinks : NoLinks oneHeader [] := noLinks_of_entries (by decide)
  have hwhere : (∀ name ∈ D.getLast?, isName name = true) ∧ oneHeader.get? D.dropLast = some .dir ∧
      ¬ ["s"] <+: D ∧ ¬ D <+: ["s"] ∧ Fits ⟨.root, []⟩ D := by
    fin_cases hD <;> decide +kernel
  exact ⟨rfl, hwhere.1, hwhere.2.1, hwhere.2.2.1, hwhere.2.2.2.1, hlinks.within D, hwhere.2.2.2.2⟩

theorem detached_stageAt (hplace : Path.GoesDown place) : (stageAt place).Detached oneHeader ["s"] := by
  refine Request.detached_of_elsewhere ⟨fun dir place' hin => ?_, fun stage name hin => ?_⟩ fun p hp => ?_
  · obtain ⟨rfl, rfl⟩ : dir = ⟨.root, ["h"]⟩ ∧ place' = place := by
      simpa [Request.headed, stageAt, eq_comm] using hin
    exact hplace
  · obtain ⟨name', hname, heq⟩ := List.mem_map.1 hin
    cases heq
    exact (section_of_standard hname).1
  · have hall : (stageAt place).dirs ++ (stageAt place).expected =
        [["h"], ["st", "include"], ["st", "lib"]].map (Path.mk .root) := rfl
    obtain ⟨D, hD, rfl⟩ := List.mem_map.1 (hall ▸ hp)
    exact ⟨D, elsewhere_oneHeader hD⟩

/-- There is one file below the directories of the request. -/
theorem beneath_oneHeader {D : Location} {p : List String} {n : Node}
    (hD : D ∈ [["h"], ["st", "include"], ["st", "lib"]]) (h : Beneath oneHeader ⟨.root, D⟩ p n) :
    D = ["h"] ∧ p = ["zlib.json"] := by
  obtain ⟨D', hlocate, hp, hn, hne⟩ := h
  rw [(elsewhere_oneHeader hD).locate (.of_grown (.refl _) (.refl _ _))] at hlocate
  cases hlocate
  have hmem := (get?_eq_some_iff (List.append_ne_nil_of_right_ne_nil D hp)).1 hn
  fin_cases hD
  · obtain ⟨rfl, -⟩ : p = ["zlib.json"] ∧ n = .file [1] false := by
      simpa [oneHeader, hp] using hmem
    exact ⟨rfl, rfl⟩
  · simp [oneHeader] at hmem
  · simp [oneHeader] at hmem

/-- The stage sends the header only. -/
theorem sends_stageAt {n : Node} (h : (stageAt place).Sends oneHeader x n) :
    x = "include" :: ((Path.ofText place).parts ++ ["zlib.json"]) := by
  rcases h with ⟨name, hname, p, -, hp⟩ | ⟨-, dir, place', heq, p, rfl, hp⟩
  · simp only [standardSections, List.mem_cons, List.not_mem_nil, or_false] at hname
    rcases hname with rfl | rfl
    · exact absurd (beneath_oneHeader (D := ["st", "include"]) (by simp) hp).1 (by decide)
    · exact absurd (beneath_oneHeader (D := ["st", "lib"]) (by simp) hp).1 (by decide)
  · cases heq
    rw [(beneath_oneHeader (D := ["h"]) (by simp) hp).2]
    rfl

/-- In the empty sysroot the stage can be installed with the header where the path of the header fits. -/
theorem installable_stageAt (hplain : Plain (Path.ofText place).parts)
    (hfits : Fits ⟨.root, ["s"]⟩ ("include" :: ((Path.ofText place).parts ++ ["zlib.json"])))
    (hdetached : (stageAt place).Detached oneHeader ["s"]) :
    (stageAt place).Installable oneHeader ⟨.root, ["s"]⟩ ["s"] .libc := by
  have hnone : ∀ {y}, y ≠ [] → oneHeader.get? (["s"] ++ y) = none := fun {y} hy => by
    by_contra hsome
    obtain ⟨n, hn⟩ := Option.ne_none_iff_exists'.1 hsome
    have hmem := (get?_eq_some_iff (List.cons_ne_nil _ _)).1 hn
    simp [oneHeader, hy] at hmem
  have hcreate : (create ⟨.root, ["s"]⟩ oneHeader).1.toOption.isSome = true := by decide +kernel
  rcases hcreated : create ⟨.root, ["s"]⟩ oneHeader with ⟨e | ⟨⟩, t₁⟩
  · rw [hcreated] at hcreate
    cases hcreate
  refine ⟨⟨t₁, hcreated⟩, ⟨_, ⟨0, rfl⟩, by decide +kernel, hnone (List.cons_ne_nil _ _)⟩, fun x n hx => ?_,
    fun x source hgives => ?_, fun x n y n' hx hy _ => (sends_stageAt hx).trans (sends_stageAt hy).symm,
    fun x n hx p hp => ?_, fun x n hx hsome => absurd (hnone ?_) hsome, by decide +kernel, [], ?_⟩
  · rw [sends_stageAt hx]
    refine ⟨⟨?_, by simp, .inl rfl⟩, hfits⟩
    exact plain_cons.2 ⟨by decide, plain_append.2 ⟨hplain, plain_cons.2 ⟨by decide, plain_nil⟩⟩⟩
  · obtain ⟨dir, hdir, p, n, rfl, hp, -⟩ := hgives.sends rfl
    have hmem : dir ∈ [["h"], ["st", "include"], ["st", "lib"]].map (Path.mk .root) := hdir
    obtain ⟨D, hD, rfl⟩ := List.mem_map.1 hmem
    refine ((hdetached.outside _ hdir).exists_node?_iff hp).2 ?_
    obtain ⟨rfl, rfl⟩ := beneath_oneHeader hD hp
    decide +kernel
  · rcases List.eq_nil_or_concat p with rfl | ⟨q, b, rfl⟩
    · exact .inr (by decide +kernel)
    · exact .inl (hnone (by simp))
  · rw [sends_stageAt hx]
    exact List.cons_ne_nil _ _
  · have hmanifest := hnone (List.cons_ne_nil ".manifests" [Library.libc.name ++ ".json"])
    rw [manifestNames, hmanifest]
    rfl

/-- At the long place there is no room to set the header aside. -/
theorem not_installsAfterHeader_longNames :
    ¬ InstallsAfterHeader (Path.ofNames longNames).text := by
  have hlinks : NoLinks oneHeader ["s"] := (noLinks_of_entries (by decide)).within (R := []) ["s"]
  have hsite : Sited oneHeader ⟨.root, ["s"]⟩ ["s"] linkBudget := sited_of_seat <|
    (seat_root oneHeader).within (plain_cons.2 ⟨by decide, plain_nil⟩) (by decide)
  have hparts := (Path.Spelled.of_plain plain_longNames).ofText_text
  have hgoes : Path.GoesDown (Path.ofNames longNames).text := by
    rw [Path.GoesDown, hparts]
    exact ⟨rfl, fun hmem => absurd (List.eq_of_mem_replicate hmem) (by decide)⟩
  have hdetached := detached_stageAt hgoes
  have howned : owners ⟨.root, ["s"]⟩ oneHeader = (.ok .empty, oneHeader) := by
    rw [owners_apply, show manifests oneHeader ⟨.root, ["s"]⟩ = .ok [] by decide +kernel]
    rfl
  have hmapping : ((stageAt (Path.ofNames longNames).text).mapping .libc oneHeader).1.toOption.isSome
      = true := by decide +kernel
  rcases hm : (stageAt (Path.ofNames longNames).text).mapping .libc oneHeader with ⟨e | m, t₂⟩
  · rw [hm] at hmapping
    cases hmapping
  obtain rfl := (Request.reads_mapping .libc _).eq_of_apply hm
  have hinstallable : (stageAt (Path.ofNames longNames).text).Installable oneHeader ⟨.root, ["s"]⟩
      ["s"] .libc := installable_stageAt
    (by rw [hparts]; exact plain_longNames) (by
      rw [hparts, Fits, Path.within, size_text_root (by simp)]
      decide +kernel) hdetached
  obtain ⟨files, t', hok⟩ := hinstallable.run hdetached.toAimed rfl hsite hlinks hm howned
    (collisions_eq_nil_iff.2 fun f _ o ho => by
      rw [OrderedMap.find?_empty] at ho
      cases ho)
  intro hafter
  obtain ⟨m₁, hm₁⟩ := Request.mapping_headers rfl hm
  obtain ⟨-, hroom⟩ := ((hdetached.headers rfl).run_covered_iff hdetached trivial rfl
    (Request.covers_headers rfl) hsite hlinks hok hm₁).1 (hafter ⟨files, t', hok⟩)
  have hfits := hroom ("include" :: (Path.ofText (Path.ofNames longNames).text).parts ++ ["zlib.json"])
    (.file [1] false) ⟨["zlib.json"], rfl, ["h"], by decide +kernel, by decide, by decide, by decide⟩
    _ ⟨0, rfl⟩
  rw [hparts, Fits, Path.within, size_text_root (by simp)] at hfits
  revert hfits
  decide +kernel

/-- A header that is no manifest cannot be among the manifests before the stage is installed. -/
theorem not_installsAfterHeader_manifests : ¬ InstallsAfterHeader "../.manifests" := by
  intro hinstalls
  have hok : ((stageAt "../.manifests").run ⟨.root, ["s"]⟩ .libc oneHeader).1.toOption.isSome = true := by
    decide +kernel
  rcases hrun : (stageAt "../.manifests").run ⟨.root, ["s"]⟩ .libc oneHeader with ⟨e | files, t'⟩
  · rw [hrun] at hok
    cases hok
  obtain ⟨files₁, t₁, files₂, t₂, hok₁, hok₂⟩ := hinstalls ⟨files, t', hrun⟩
  have htree : t₁ = ((headerAt "../.manifests").run ⟨.root, ["s"]⟩ .libc oneHeader).2 := by rw [hok₁]
  have hlinks : NoLinks t₁ ["s"] := by
    rw [htree]
    exact noLinks_of_entries (by decide +kernel)
  have hafter : t₁.get? ["s"] = some .dir ∧
      t₁.get? ["s", ".manifests", "zlib.json"] = some (.file [1] false) := by
    rw [htree]
    decide +kernel
  have hsite : Sited t₁ ⟨.root, ["s"]⟩ ["s"] linkBudget := sited_of_seat <|
    (seat_root t₁).within (plain_cons.2 ⟨by decide, plain_nil⟩) hafter.1
  rcases Request.run_cases ⟨.root, ["s"]⟩ .libc (stageAt "../.manifests") t₁ with
    ⟨fault, hfail⟩ | ⟨m, owned, -, howned, -⟩
  · rw [hfail] at hok₂
    cases hok₂
  -- all manifests are read before anything is installed
  obtain ⟨paths, hpaths, hmem⟩ := manifests_of_noLinks hsite hlinks (by decide +kernel)
  obtain ⟨l, files, hl, hread⟩ := (owners_last howned hpaths).1 _
    ((hmem _).2 ⟨"zlib.json", _, hafter.2, by decide +kernel, rfl⟩)
  rw [show (Path.within ⟨.root, ["s"]⟩ [".manifests", "zlib.json"]).stem = Library.zlib.name by
    decide +kernel, Library.read_name] at hl
  cases hl
  have hlisted := ((readManifest_eq_ok hsite hlinks (by decide +kernel)).1 hread).2
  have hnone : (filesOf ⟨.root, ["s"]⟩ .zlib [1]).toOption = none := by decide +kernel
  rw [show ["s"] ++ manifestNames .zlib = ["s", ".manifests", "zlib.json"] from rfl, hafter.2] at hlisted
  rw [show filesOf ⟨.root, ["s"]⟩ .zlib [1] = .ok files from hlisted] at hnone
  cases hnone

/-- Neither where a header has a path that is too long once it is set aside nor where headers go to the
manifests can they be installed before a stage with them. -/
theorem not_installsAfterHeader : NoLinks oneHeader [] ∧
    ¬ InstallsAfterHeader (Path.ofNames longNames).text ∧ ¬ InstallsAfterHeader "../.manifests" :=
  ⟨noLinks_of_entries (by decide), not_installsAfterHeader_longNames, not_installsAfterHeader_manifests⟩

end Sysroot.Install

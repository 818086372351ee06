import Sysroot.Proofs.Install.Feasible
import Sysroot.Proofs.Install.Outcome
import Sysroot.Proofs.Json.Strings

/-!
# When a request is carried out

Whether a request from outside of a sysroot without links is carried out is told by the sysroot as it
is before (`Request.Installable`): the places can be reached and lie apart, there is room for what is
set aside, and the manifest can be read.  A request that is carried out was installable
(`Request.Aimed.installable`), and one that is installable and collides with nothing is carried out
(`Request.Installable.run`).
-/

namespace Sysroot

open Sysroot.Tree Sysroot.Tree.Action

namespace Install

variable {t t' : Tree} {root dir source : Path} {R : Location} {k : Nat} {l : Library} {r : Request}
  {m : OrderedMap String Path} {owned : OrderedMap String Library} {files : List Path}
  {item item' : String × Path} {x y p : List String} {n n' : Node} {a b : String}

/-! ## What a transaction did -/

/-- Of what is taken by files and links, nothing is below another. -/
theorem Taken.apart {places : List (List String)} (h : Taken t R places) (hx : x ∈ places)
    (hy : y ∈ places) (hxy : x <+: y) : x = y := by
  obtain ⟨n, hn, hne⟩ := h x hx
  obtain ⟨n', hn', -⟩ := h y hy
  by_contra hno
  have hdir := get?_of_above hn' ((List.prefix_append_right_inj R).2 hxy)
    fun heq => hno (List.append_cancel_left heq)
  rw [hn] at hdir
  exact hne (Option.some.inj hdir)

namespace Course

variable {t₁ t₂ t₃ t₄ : Tree} {filled moved : List (List String)} {before : List String}
  (h : Course t t₁ t₂ t₃ t₄ t' root R k l m a filled moved before)

include h

theorem mem_places (hitem : item ∈ m.pairs) : namesOf item.1 ∈ filled ++ moved :=
  List.mem_append.2 ((h.places _).2 ⟨item, hitem, rfl⟩)

/-- No place is below another. -/
theorem apart (hitem : item ∈ m.pairs) (hitem' : item' ∈ m.pairs)
    (hpre : namesOf item.1 <+: namesOf item'.1) : namesOf item.1 = namesOf item'.1 :=
  h.progress.taken.apart (h.mem_places hitem) (h.mem_places hitem') hpre

/-- Where the content of a place was kept fits. -/
theorem fits_aside (hitem : item ∈ m.pairs) (hsome : t.get? (R ++ namesOf item.1) ≠ none) :
    Fits root (stash a ++ namesOf item.1) := by
  have hstart : t₂.get? (R ++ namesOf item.1) ≠ none := by
    obtain ⟨n, hn⟩ := Option.ne_none_iff_exists'.1 hsome
    rw [h.opened.get?_other ((h.place hitem).1.not_both List.prefix_rfl),
      h.opened.created.grown.within _ _ hn]
    exact nofun
  by_cases hmoved : namesOf item.1 ∈ moved
  · exact h.progress.fits _ hmoved
  · have hfilled := ((h.places _).2 ⟨item, hitem, rfl⟩).resolve_right hmoved
    refine absurd (h.progress.free _ hfilled fun s hs hpre => hmoved ?_) hstart
    rwa [← h.progress.taken.apart (List.mem_append_right _ hs) (h.mem_places hitem) hpre]

variable (hsite : Sited t root R k) (hlinks : NoLinks t R)

include hsite hlinks

/-- The directories of the sysroot are there in the end. -/
theorem dirs : ∀ name ∈ sysrootDirs, t'.get? (R ++ [name]) = some .dir := by
  intro name hname
  have hshort : ∀ p, p ∈ filled ∨ p ∈ moved → ¬ p <+: [name] := fun p hp hpre => by
    have hlen := hpre.length_le
    have hdeep := (h.progress.places p hp).1.deep
    simp only [List.length_singleton] at hlen
    omega
  have hstash : ¬ stash a <+: [name] := fun hpre => by simpa [stash] using hpre.length_le
  have hdir : t₂.get? (R ++ [name]) = some .dir := by
    rw [h.opened.get?_other hstash, (create_exact hsite h.created hlinks).1 name hname]
  rw [h.get?_other hstash fun heq => by simpa [manifestNames] using congrArg List.length heq]
  rcases h.progress.others [name] (fun hmem => hshort _ (.inl hmem) List.prefix_rfl)
    (fun s hs => hshort s (.inr hs)) hstash with heq | ⟨hnone, -⟩
  · rw [heq, hdir]
  · rw [hdir] at hnone
    cases hnone

/-- What is neither at a place nor below one is as it was, or it is a new directory on the way to
one or to a directory of the sysroot. -/
theorem others (hout : ∀ item ∈ m.pairs, ¬ namesOf item.1 <+: y) (hy : y ≠ manifestNames l) :
    t'.get? (R ++ y) = t.get? (R ++ y) ∨ t.get? (R ++ y) = none ∧ t'.get? (R ++ y) = some .dir ∧
      ((∃ name ∈ sysrootDirs, y <+: [name]) ∨ ∃ item ∈ m.pairs, y <+: namesOf item.1) := by
  by_cases hin : stash a <+: y
  · -- what was in the stash is gone, and before there was nothing
    obtain ⟨z, rfl⟩ := hin
    rw [h.dropped, get?_dropped_below, if_pos (List.prefix_append _ _)]
    rcases h.opened.created.grown.get? (R ++ (stash a ++ z)) with heq | ⟨hnone, -⟩
    · rw [← heq, h.opened.get?_stash]
      exact .inl rfl
    · exact .inl hnone.symm
  have hnot : ∀ p, p ∈ filled ∨ p ∈ moved → ¬ p <+: y := by
    intro p hp hpy
    obtain ⟨item, hitem, rfl⟩ := (h.places p).1 hp
    exact hout item hitem hpy
  have hcreated : t₂.get? (R ++ y) = t.get? (R ++ y) ∨ t.get? (R ++ y) = none ∧
      t₂.get? (R ++ y) = some .dir ∧ ∃ name ∈ sysrootDirs, y <+: [name] := by
    rw [h.opened.get?_other hin]
    by_cases hway : ∃ name ∈ sysrootDirs, y <+: [name]
    · exact (h.opened.created.grown.get? _).imp id fun hnew => ⟨hnew.1, hnew.2, hway⟩
    · push Not at hway
      exact .inl ((create_exact hsite h.created hlinks).2 _ fun name hname hpre =>
        hway name hname ((List.prefix_append_right_inj R).1 hpre))
  rw [h.get?_other hin hy]
  rcases h.progress.others y (fun hmem => hnot y (.inl hmem) List.prefix_rfl)
    (fun s hs => hnot s (.inr hs)) hin with heq | ⟨hnone, hdir, x, hx, hyx⟩
  · rw [heq]
    exact hcreated.imp id fun hnew => ⟨hnew.1, hnew.2.1, .inl hnew.2.2⟩
  · obtain ⟨item, hitem, rfl⟩ := (h.places x).1 hx
    refine .inr ⟨?_, hdir, .inr ⟨item, hitem, hyx⟩⟩
    rcases hcreated with heq | ⟨-, hdir', -⟩
    · rw [← heq, hnone]
    · rw [hdir'] at hnone
      cases hnone

end Course

/-! ## The directory for what is set aside -/

/-- The numbers that name directories for what is set aside repeat. -/
theorem hexOfWidth_mod (w n : Nat) : Text.hexOfWidth w (n % 16 ^ w) = Text.hexOfWidth w n := by
  induction w generalizing n with
  | zero => rfl
  | succ w ih =>
    have hhigh : n % 16 ^ (w + 1) / 16 = n / 16 % 16 ^ w := by
      rw [Nat.pow_succ, Nat.mul_comm, Nat.mod_mul_right_div_self]
    have hlow : n % 16 ^ (w + 1) % 16 = n % 16 :=
      Nat.mod_mod_of_dvd n (Dvd.intro_left (16 ^ w) rfl)
    rw [Text.hexOfWidth, Text.hexOfWidth, hhigh, hlow, ih]

/-- When some name for what is set aside is free, the one that is taken is free. -/
theorem freeName_free (ha : IsAside l a) (hfree : a ∉ t.list dir) :
    freeName t dir (l.name ++ "-") ∉ t.list dir := by
  set candidate := fun n => l.name ++ "-" ++ String.ofList (Text.hexOfWidth 8 n) with hcandidate
  set numbers := List.range ((t.list dir).length + 1) with hnumbers
  rw [show freeName t dir (l.name ++ "-") =
    ((numbers.map candidate).find? (· ∉ t.list dir)).getD (candidate 0) from rfl]
  rcases hfind : (numbers.map candidate).find? (· ∉ t.list dir) with _ | b
  · -- there are more numbers than names that are taken, unless all numbers were tried
    have htaken : ∀ n ∈ numbers, candidate n ∈ t.list dir := fun n hn => by
      simpa using List.find?_eq_none.1 hfind (candidate n) (List.mem_map.2 ⟨n, hn, rfl⟩)
    obtain ⟨n, rfl⟩ := ha
    have hmod : candidate (n % 16 ^ 8) = candidate n := by
      rw [hcandidate]
      simp only [hexOfWidth_mod]
    have hlarge : (t.list dir).length < n % 16 ^ 8 := by
      by_contra hsmall
      have hin := htaken _ (List.mem_range.2 (Nat.lt_succ_of_le (Nat.not_lt.1 hsmall)))
      rw [hmod] at hin
      exact hfree hin
    have hinj : ∀ i ∈ numbers, ∀ j ∈ numbers, candidate i = candidate j → i = j := by
      intro i hi j hj heq
      have hdigits : Text.hexOfWidth 8 i = Text.hexOfWidth 8 j :=
        String.ofList_injective ((String.append_right_inj _).1 heq)
      have hread := congrArg Json.ofHexDigits? hdigits
      rw [Json.ofHexDigits?_hexOfWidth, Json.ofHexDigits?_hexOfWidth, Option.some.injEq] at hread
      have hbound := Nat.mod_lt n (show 0 < 16 ^ 8 by decide)
      rw [Nat.mod_eq_of_lt (by have := List.mem_range.1 hi; omega),
        Nat.mod_eq_of_lt (by have := List.mem_range.1 hj; omega)] at hread
      exact hread
    have hnodup : (numbers.map candidate).Nodup := List.Nodup.map_on hinj List.nodup_range
    have hle := (hnodup.subperm fun c hc => by
      obtain ⟨i, hi, rfl⟩ := List.mem_map.1 hc
      exact htaken i hi : (numbers.map candidate).Subperm (t.list dir)).length_le
    rw [List.length_map, hnumbers, List.length_range] at hle
    omega
  · have hnew := List.find?_some hfind
    exact of_decide_eq_true hnew

/-- Whether what is set aside fits does not depend on the number in the name of its directory. -/
theorem IsAside.fits_iff (ha : IsAside l a) (hb : IsAside l b) :
    Fits root (stash a ++ x) ↔ Fits root (stash b ++ x) := by
  have hsize : ∀ {c}, IsAside l c → c.utf8ByteSize = l.name.utf8ByteSize + 1 + 8 := by
    rintro c ⟨n, rfl⟩
    rw [String.utf8ByteSize_append, String.utf8ByteSize_append, (hexOfWidth_plain 8 n).1]
    rfl
  have hmono : ∀ {c d}, IsAside l c → IsAside l d → Fits root (stash d ++ x) →
      Fits root (stash c ++ x) := fun {c d} hc hd h => by
    refine h.mono (by simp [stash]) (.cons (Nat.le_refl _) (.cons ?_ ?_))
    · rw [hsize hc, hsize hd]
    · exact List.forall₂_same.2 fun _ _ => Nat.le_refl _
  exact ⟨hmono hb ha, hmono ha hb⟩

/-- A directory for what is set aside is made when there is a name that is free and fits. -/
theorem openAside_of_free {t₁ : Tree} (hsite : Sited t root R k) (hlinks : NoLinks t R)
    (hcreate : create root t = (.ok (), t₁)) (ha : IsAside l a) (hfits : Fits root (stash a))
    (hfree : t.get? (R ++ stash a) = none) :
    ∃ aside t₂, openAside root l t = (.ok aside, t₂) := by
  have hgrown := create_grown root t
  rw [hcreate] at hgrown
  obtain ⟨hseat, hcreated, hnull, hdir⟩ :=
    create_spec hsite hcreate (hlinks.of_grown hgrown).noDirLinks
  have hb := isAside_freeName t₁ (manifestDir root) l
  have hplain : Plain ([".manifests"] ++ [a]) := plain_stash ha.isName
  have hlist := list_manifestDir hseat (Fits.of_append (show Fits root ([".manifests"] ++ [a]) from hfits)
    (plain_append.1 hplain).2) hdir
  have hnew : t₁.get? (R ++ stash (freeName t₁ (manifestDir root) (l.name ++ "-"))) = none := by
    have hnot : a ∉ t₁.list (manifestDir root) := fun hin => by
      obtain ⟨n, hn⟩ := mem_children.1 (hlist ▸ hin)
      rcases hcreated.below (stash a) with heq | ⟨-, -, hlen⟩
      · rw [hfree] at heq
        rw [List.append_assoc] at hn
        exact nomatch heq.symm.trans hn
      · exact absurd hlen (by simp [stash])
    by_contra hsome
    obtain ⟨n, hn⟩ := Option.ne_none_iff_exists'.1 hsome
    refine freeName_free ha hnot (hlist ▸ mem_children.2 ⟨n, ?_⟩)
    rw [List.append_assoc]
    exact hn
  rw [openAside_apply, hcreate]
  have hp : manifestDir root / freeName t₁ (manifestDir root) (l.name ++ "-") =
      root.within ([".manifests"] ++ [freeName t₁ (manifestDir root) (l.name ++ "-")]) := by
    rw [Path.div_name hb.isName, manifestDir_eq, Path.within_within]
  simp only [hp]
  generalize freeName t₁ (manifestDir root) (l.name ++ "-") = b at hb hnew
  have hfits' : Fits root (stash b) := by
    have := (ha.fits_iff hb (x := [])).1 (by rwa [List.append_nil])
    rwa [List.append_nil] at this
  obtain ⟨t₂, hmake, -⟩ := hseat.makeDir_of_free hnull (plain_stash hb.isName) hfits' hdir hnew
  exact ⟨_, t₂, by rw [hmake]⟩

/-! ## Sources -/

/-- A file in a directory outside of the sysroot can be read whatever is in the sysroot, if its path
can be asked about. -/
theorem Outside.readable (h : Outside t R dir) (hp : Beneath t dir p n)
    (hnode : t.node? (dir.within p) = some n') {t₂ : Tree}
    (hgrown : ∀ t', SameAround R t₂ t' → GrownAround R t t') : Readable t₂ R (dir.within p) where
  ne_link t' target hs := h.ne_link (exists_beneath_iff.1 ⟨n, hp⟩) (hgrown t' hs) target
  content t' hs := by
    obtain ⟨D, hlocate, hne, hn, hdir⟩ := hp
    have hfits : Fits dir p := by
      by_contra hno
      rw [node?, locate_of_not_fits hno] at hnode
      cases hnode
    obtain ⟨hn', hthere⟩ := h.locate_within hlocate hne hn (hgrown t' hs) .target
    have hl := hthere hfits
    cases n with
    | file content executable =>
      refine ⟨content, ?_⟩
      rw [contentOf, place, Tree.placeOr, hasNull_of_locate hl hn', hl]
      simp [Except.mapError, bind, Except.bind, hn', pure, Except.pure]
    | link target => exact absurd hn ((h D hlocate).2.1 p target)
    | dir => exact absurd rfl hdir

/-! ## The criterion -/

/-- What a sysroot has to be like for a request to be carried out, besides that no path belongs to
another library. -/
structure Request.Installable (r : Request) (t : Tree) (root : Path) (R : Location) (l : Library) :
    Prop where
  created : ∃ t₁, create root t = (.ok (), t₁)
  aside : ∃ a, IsAside l a ∧ Fits root (stash a) ∧ t.get? (R ++ stash a) = none
  place : ∀ x n, r.Sends t x n → IsPlace x ∧ Fits root x
  source : ∀ x source, r.Gives t x source → ∃ n, t.node? source = some n
  apart : ∀ x n y n', r.Sends t x n → r.Sends t y n' → x <+: y → x = y
  way : ∀ x n, r.Sends t x n → Passable t R x.dropLast
  /-- What is at a place can be set aside. -/
  room : ∀ x n, r.Sends t x n → t.get? (R ++ x) ≠ none → ∀ a, IsAside l a → Fits root (stash a ++ x)
  fits : Fits root (manifestNames l)
  listed : ∃ before, manifestAt root l (t.get? (R ++ manifestNames l)) = .ok before

/-! ## What is carried out was installable -/

section

variable (hr : r.Aimed t R) (hsite : Sited t root R k) (hlinks : NoLinks t R)
  (hok : r.run root l t = (.ok files, t'))

include hr hsite hlinks hok

/-- A request that is carried out collides with nothing, and takes the course of a transaction. -/
theorem Request.Aimed.course : ∃ m owned, r.mapping l t = (.ok m, t) ∧
    owners root t = (.ok owned, t) ∧ collisions owned l m = [] ∧
    files = (inOrder m).map (fun item => root / item.1) ∧
    Installed t t' root R k l m ∧ NoLinks t' R ∧
    ∃ t₁ t₂ t₃ t₄ a filled moved before,
      Course t t₁ t₂ t₃ t₄ t' root R k l m a filled moved before := by
  have hnull := Request.hasNull_of_run hok
  obtain ⟨m, hm, hfiles, hinst, hlinks', -, hitems, -⟩ := hr.filled hsite hnull hlinks hok
  rcases Request.run_cases root l r t with ⟨fault, hfail⟩ | ⟨m', owned, hm', howned, hnone, hrun⟩
  · rw [hfail] at hok
    cases hok
  obtain rfl : m' = m := by
    rw [hm] at hm'
    cases hm'
    rfl
  have hready := ready_of_noLinks (l := l) hsite hnull hlinks (fun item hitem => (hitems item hitem).1)
    (hr.ne_link hm) howned
  exact ⟨m', owned, hm, howned, hnone, hfiles, hinst, hlinks', transact_course hready (hrun ▸ hok)⟩

/-- A request that is carried out was installable. -/
theorem Request.Aimed.installable (hstandard : r.Standard) : r.Installable t root R l := by
  obtain ⟨m, owned, hm, -, -, -, -, -, t₁, t₂, t₃, t₄, a, filled, moved, before, h⟩ :=
    hr.course hsite hlinks hok
  obtain ⟨m', hm', -, -, -, -, hitems, -⟩ := hr.filled hsite (Request.hasNull_of_run hok) hlinks hok
  obtain rfl : m' = m := by
    rw [hm] at hm'
    cases hm'
    rfl
  have hplace : ∀ {x n}, r.Sends t x n → ∃ item ∈ m'.pairs, namesOf item.1 = x := fun hsends =>
    (Request.exists_item_iff hr.inward hstandard hm).2 ⟨_, hsends⟩
  refine ⟨⟨t₁, h.created⟩, ⟨a, h.aside, h.opened.fits, ?_⟩, fun x n hsends => ?_,
    fun x source hgives => ?_, fun x n y n' hx hy hpre => ?_, fun x n hsends p hp => ?_,
    fun x n hsends hsome b hb => ?_, h.fits, before, h.listed⟩
  · rcases h.opened.created.grown.get? (R ++ stash a) with heq | ⟨hnone, -⟩
    · rw [← heq, h.opened.free]
    · exact hnone
  · obtain ⟨item, hitem, rfl⟩ := hplace hsends
    exact h.place hitem
  · have hitem : ((Path.ofNames x).text, source) ∈ m'.pairs :=
      (Request.mem_mapping hr.inward hstandard hm).2 ⟨x, rfl, hgives⟩
    obtain ⟨-, -, content, executable, hnode, -⟩ := hitems _ hitem
    exact ⟨_, hnode⟩
  · obtain ⟨item, hitem, rfl⟩ := hplace hx
    obtain ⟨item', hitem', rfl⟩ := hplace hy
    exact h.apart hitem hitem' hpre
  · -- on the way to a place there are directories in the end
    obtain ⟨item, hitem, rfl⟩ := hplace hsends
    obtain ⟨-, -, content, executable, -, hn⟩ := hitems item hitem
    have hproper : p ≠ namesOf item.1 := by
      rintro rfl
      have hlen := hp.length_le
      have hdeep := (h.place hitem).1.deep
      rw [List.length_dropLast] at hlen
      omega
    have hpre : p <+: namesOf item.1 := hp.trans (List.dropLast_prefix _)
    have hdir : t'.get? (R ++ p) = some .dir :=
      get?_of_above hn ((List.prefix_append_right_inj R).2 hpre)
        fun heq => hproper (List.append_cancel_left heq)
    have hout : ∀ item' ∈ m'.pairs, ¬ namesOf item'.1 <+: p := fun item' hitem' hpre' => by
      have heq := h.apart hitem' hitem (hpre'.trans hpre)
      rw [heq] at hpre'
      exact hproper (hpre.eq_of_length_le hpre'.length_le)
    have hmanifest : p ≠ manifestNames l := fun heq =>
      (h.place hitem).1.not_below_manifest (l := l) (heq ▸ hpre)
    rcases h.others hsite hlinks hout hmanifest with heq | ⟨hnone, -⟩
    · rw [← heq]
      exact .inr hdir
    · exact .inl hnone
  · obtain ⟨item, hitem, rfl⟩ := hplace hsends
    exact (h.aside.fits_iff hb).1 (h.fits_aside hitem hsome)

end

/-! ## What is installable is carried out -/

/-- A request that is installable and collides with nothing is carried out. -/
theorem Request.Installable.run (h : r.Installable t root R l) (hr : r.Aimed t R)
    (hstandard : r.Standard) (hsite : Sited t root R k) (hlinks : NoLinks t R)
    (hm : r.mapping l t = (.ok m, t)) (howned : owners root t = (.ok owned, t))
    (hnone : collisions owned l m = []) : ∃ files t', r.run root l t = (.ok files, t') := by
  obtain ⟨t₁, hcreate⟩ := h.created
  obtain ⟨a, ha, hfits, hfree⟩ := h.aside
  have hgrown := create_grown root t
  rw [hcreate] at hgrown
  have hlinks₁ := hlinks.of_grown hgrown
  obtain ⟨aside, t₂, hopen⟩ := openAside_of_free hsite hlinks hcreate ha hfits hfree
  rcases openAside_opened hsite (fun t' ht' => by
    rw [hcreate] at ht'
    cases ht'
    exact hlinks₁.noDirLinks) l with ⟨fault, t', hfail, -⟩ | ⟨t₁', t₂', b, -, hopen', hb, hopened⟩
  · rw [hopen] at hfail
    cases hfail
  rw [Request.run_of_mapping hm howned hnone]
  have hgives : ∀ item ∈ m.pairs, r.Gives t (namesOf item.1) item.2 := fun item hitem =>
    ((Request.mem_mapping_namesOf hr.inward hstandard hm).1 hitem).2
  have hsent : ∀ item ∈ m.pairs, ∃ n, r.Sends t (namesOf item.1) n := fun item hitem =>
    (Request.exists_item_iff hr.inward hstandard hm).1 ⟨item, hitem, rfl⟩
  have hreadable : ∀ item ∈ m.pairs, Readable t₂' R item.2 := by
    intro item hitem
    obtain ⟨n, hnode⟩ := h.source _ _ (hgives item hitem)
    obtain ⟨dir, hdir, p, n', hsource, hbeneath, -⟩ := (hgives item hitem).sends hstandard
    rw [hsource] at hnode ⊢
    exact (hr.outside dir hdir).readable hbeneath hnode fun t' hs => hopened.grownAround hs
  have hentries : ∀ item ∈ m.pairs, IsEntry item (namesOf item.1) := by
    intro item hitem
    obtain ⟨n, hsends⟩ := hsent item hitem
    obtain ⟨n', hnode⟩ := h.source _ _ (hgives item hitem)
    refine ⟨((Request.mem_mapping_namesOf hr.inward hstandard hm).1 hitem).1, (h.place _ n hsends).1, ?_⟩
    rw [node?] at hnode
    split at hnode
    · next l hl => exact hasNull_of_locate hl hnode
    · cases hnode
  have hat : ∀ {y}, ¬ stash b <+: y → t₂'.get? (R ++ y) = t.get? (R ++ y) ∨
      t.get? (R ++ y) = none ∧ t₂'.get? (R ++ y) = some .dir ∧ y.length ≤ 1 := fun hy => by
    rw [hopened.get?_other hy]
    exact hopened.created.below _
  have hroom : ∀ item ∈ m.pairs, Room t₂' root R b (namesOf item.1) := by
    intro item hitem
    obtain ⟨n, hsends⟩ := hsent item hitem
    obtain ⟨hplace, hfits'⟩ := h.place _ n hsends
    refine ⟨hfits', fun p hp => ?_, fun hsome => h.room _ n hsends ?_ b hb⟩
    · rcases hat (y := p) fun hpre => hplace.not_both List.prefix_rfl
        (hpre.trans (hp.trans (List.dropLast_prefix _))) with heq | ⟨-, hdir, -⟩
      · rw [heq]
        exact h.way _ n hsends p hp
      · exact .inr hdir
    · rcases hat (hplace.not_both List.prefix_rfl) with heq | ⟨-, -, hlen⟩
      · rwa [← heq]
      · have hdeep := hplace.deep
        omega
  have hlinks₂ : NoLinks t₂' R := fun y target hy => hlinks y target (hopened.get?_link hy)
  have hsorted := inOrder_sorted hentries
  have hapart : (inOrder m).Pairwise fun i j => ¬ namesOf j.1 <+: namesOf i.1 ∧
      ¬ namesOf i.1 <+: namesOf j.1 := hsorted.imp_of_mem fun {i j} hi hj hij => by
    obtain ⟨n, hsends⟩ := hsent i (mem_inOrder.1 hi)
    obtain ⟨n', hsends'⟩ := hsent j (mem_inOrder.1 hj)
    exact ⟨hij, fun hpre => hij (h.apart _ n _ n' hsends hsends' hpre ▸ List.prefix_rfl)⟩
  obtain ⟨u, t₃, hcopy⟩ := copyEach_of_passable hopened.seat' hopened.null hopened.name hlinks₂
    hopened.base hopened.stashed (fun item hitem => hentries item (mem_inOrder.1 hitem))
    (fun item hitem => hroom item (mem_inOrder.1 hitem))
    (fun item hitem => hreadable item (mem_inOrder.1 hitem)) hapart
  rcases hopened.copyEach_of_noLinks hlinks (fun item hitem => hentries item (mem_inOrder.1 hitem))
    (fun item hitem => hr.ne_link hm item (mem_inOrder.1 hitem)) hsorted with
    ⟨e, filled, moved, t₃', hfail, -⟩ | ⟨filled, moved, t₃', hcopy', hprog, hlinks₃⟩
  · rw [hcopy] at hfail
    cases hfail
  have hmanifest : t₃'.get? (R ++ manifestNames l) = t.get? (R ++ manifestNames l) := by
    rw [hprog.get?_manifest (hb.ne_manifest l), hopened.get?_manifest (hb.ne_manifest l)]
  obtain ⟨before, hlisted⟩ := h.listed
  have hread : ∀ content executable,
      t₃'.get? (R ++ manifestNames l) = some (.file content executable) →
      ∃ before, filesOf root l content = .ok before := fun content executable hfile => by
    rw [← hmanifest, hfile] at hlisted
    exact ⟨before, hlisted⟩
  rcases recordFiles_spec (hopened.seat'.of_sameAround hprog.around) hopened.null
    (get?_of_concat (r := [".manifests"]) hprog.base) (fun target => hlinks₃ _ target) hread m.keys with
    ⟨e, -, hlong | hdir⟩ | ⟨-, t₄, -, -, hrecord, -⟩
  · exact absurd h.fits hlong
  · exact absurd (hmanifest ▸ hdir) (ne_dir_of_manifestAt hlisted)
  · exact ⟨_, _, transact_of_ok hopen' hcopy' hrecord⟩

end Install

end Sysroot

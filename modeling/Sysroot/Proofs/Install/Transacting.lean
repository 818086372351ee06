import Sysroot.Proofs.Install.Recording
import Sysroot.Proofs.KeyOrder

/-!
# A transaction as a whole

When nothing stands in the way of the copying but what refuses a single operation
(`Ready`), an installation either fails and leaves the tree as it was, save for new directories
(`Reverted`), or puts a file or link at each of its places and lists the places in the manifest
(`Installed`).
-/

namespace Sysroot.Install

open Sysroot.Tree Sysroot.Tree.Action

variable {t t' t₁ t₂ t₃ t₄ : Tree} {root aside : Path} {R : Location} {k : Nat} {a : String}
  {x y : List String} {l : Library} {mapping : OrderedMap String Path} {u : Undo} {e : SystemError}

/-! ## The steps of a transaction -/

theorem transact_of_error {fault : Fault} (h : openAside root l t = (.error fault, t')) :
    ∃ fault', transact root l mapping t = (.error fault', t') := by
  rw [transact, h]
  cases fault with
  | system e => exact ⟨.caused (.installFailed l root.text e), rfl⟩
  | _ => exact ⟨_, rfl⟩

/-- A transaction whose directories cannot be made only makes some of them. -/
theorem transact_of_not_created {fault : Fault} (h : create root t = (.error fault, t')) :
    (∃ fault', transact root l mapping t = (.error fault', t')) ∧ t.Grown t' := by
  have hgrown := create_grown root t
  rw [h] at hgrown
  have hopen : openAside root l t = (.error fault, t') := by
    rw [openAside_apply, h]
  exact ⟨transact_of_error hopen, hgrown⟩

theorem failInstall_of_run {α : Type} (h : u.run t = (.ok (), t')) :
    (failInstall root l u e t : Except Fault α × Tree) =
      (.error (.caused (.installFailed l root.text e)), t') := by
  rw [failInstall, Effect.bind_of_ok h]
  rfl

theorem transact_of_refused (hopen : openAside root l t = (.ok aside, t₁))
    (hcopy : copyEach root aside (inOrder mapping) {} t₁ = (.error (.system e), u, t₂))
    (hundo : u.run t₂ = (.ok (), t₃)) :
    transact root l mapping t =
      (.error (.caused (.installFailed l root.text e)), dropDir aside t₃) := by
  rw [transact, hopen]
  simp only [hcopy, failInstall_of_run hundo]
  rfl

theorem transact_of_unrecorded (hopen : openAside root l t = (.ok aside, t₁))
    (hcopy : copyEach root aside (inOrder mapping) {} t₁ = (.ok (), u, t₂))
    (hrecord : recordFiles root l mapping.keys t₂ = (.error (.system e), t₃))
    (hundo : u.run t₃ = (.ok (), t₄)) :
    transact root l mapping t =
      (.error (.caused (.installFailed l root.text e)), dropDir aside t₄) := by
  rw [transact, hopen]
  simp only [hcopy, hrecord, failInstall_of_run hundo]
  rfl

theorem transact_of_ok (hopen : openAside root l t = (.ok aside, t₁))
    (hcopy : copyEach root aside (inOrder mapping) {} t₁ = (.ok (), u, t₂))
    (hrecord : recordFiles root l mapping.keys t₂ = (.ok (), t₃)) :
    transact root l mapping t =
      (.ok ((inOrder mapping).map fun item => root / item.1), dropDir aside t₃) := by
  rw [transact, hopen]
  simp only [hcopy, hrecord]
  rfl

/-! ## The order of the sources -/

theorem mem_inOrder {item : String × Path} : item ∈ inOrder mapping ↔ item ∈ mapping.pairs :=
  List.mem_mergeSort

/-- No source comes after one whose place is below its own. -/
theorem inOrder_pairwise : (inOrder mapping).Pairwise fun i j =>
    IsEntry i (namesOf i.1) → IsEntry j (namesOf j.1) → ¬ namesOf j.1 <+: namesOf i.1 := by
  refine (List.pairwise_map.1 mapping.sorted_keys).imp fun {i j} hij hi hj hpre =>
    absurd hij (String.not_lt.2 ?_)
  obtain ⟨more, hmore⟩ := hpre
  rw [hi.key, hj.key, ← hmore]
  exact Path.text_ofNames_le hj.place.ne_nil

theorem inOrder_sorted (hentries : ∀ item ∈ mapping.pairs, IsEntry item (namesOf item.1)) :
    (inOrder mapping).Pairwise fun i j => ¬ namesOf j.1 <+: namesOf i.1 :=
  inOrder_pairwise.imp_of_mem fun {i j} hi hj hij =>
    hij (hentries i (mem_inOrder.1 hi)) (hentries j (mem_inOrder.1 hj))

/-! ## What a transaction starts from and where it leads -/

/-- The trees that an installation passes through: the one with the directories of the sysroot, and
those in which the first sources have been copied. -/
inductive Passes (root : Path) (l : Library) (mapping : OrderedMap String Path) (t : Tree) :
    Tree → Prop where
  | created {t' : Tree} (h : create root t = (.ok (), t')) : Passes root l mapping t t'
  | copied {aside : Path} {t₂ t' : Tree} {done : List (String × Path)} {u : Undo}
      (hopen : openAside root l t = (.ok aside, t₂)) (hdone : done <+: inOrder mapping)
      (hcopy : copyEach root aside done {} t₂ = (.ok (), u, t')) : Passes root l mapping t t'

/-- What has to hold for the copying to go as it should. -/
structure Ready (t : Tree) (root : Path) (R : Location) (k : Nat) (l : Library)
    (mapping : OrderedMap String Path) : Prop where
  site : Sited t root R k
  links : ∀ t', Passes root l mapping t t' → NoDirLinks t' R k
  askable : t.Askable R
  entries : ∀ item ∈ mapping.pairs, IsEntry item (namesOf item.1)
  /-- When a source is a link, the targets of all links fit. -/
  sources : ∀ item ∈ mapping.pairs, ∀ t' target, GrownAround R t t' →
    t'.nodeItself? item.2 = some (.link target) → t.TargetsFit
  manifest : ∀ target, t.get? (R ++ manifestNames l) ≠ some (.link target)
  readable : ∀ content executable, t.get? (R ++ manifestNames l) = some (.file content executable) →
    ∃ before, filesOf root l content = .ok before

/-- What a failed installation leaves: the tree as it was with new directories, none of them among
the manifests, and the sysroot where it was. -/
structure Reverted (t t' : Tree) (root : Path) (R : Location) (k : Nat) : Prop where
  grown : t.Grown t'
  site : ∀ t₁, create root t = (.ok (), t₁) → Sited t' root R k
  manifests : ∀ t₁, create root t = (.ok (), t₁) → ∀ y, 2 ≤ y.length → y.head? = some ".manifests" →
    t'.get? (R ++ y) = t.get? (R ++ y)

/-- What an installation leads to: a file or link at each place, the places listed in the manifest,
and the tree as it was outside of them, with new directories. -/
structure Installed (t t' : Tree) (root : Path) (R : Location) (k : Nat) (l : Library)
    (mapping : OrderedMap String Path) : Prop where
  seat : Seat t' root R k
  around : GrownAround R t t'
  taken : ∀ key ∈ mapping.keys, ∃ n, t'.get? (R ++ namesOf key) = some n ∧ n ≠ .dir
  manifest : ∃ before executable, manifestAt root l (t.get? (R ++ manifestNames l)) = .ok before ∧
    t'.get? (R ++ manifestNames l) =
      some (.file (manifestBytes l (before ++ mapping.keys)) executable)
  others : ∀ y, (∀ key ∈ mapping.keys, ¬ namesOf key <+: y) → y ≠ manifestNames l →
    t'.get? (R ++ y) = t.get? (R ++ y) ∨ (t.get? (R ++ y) = none ∧ t'.get? (R ++ y) = some .dir ∧
      (y.length ≤ 1 ∨ ∃ x, IsPlace x ∧ y <+: x))
  links : ∀ y target, t'.get? (R ++ y) = some (.link target) →
    (∃ y', t.get? (R ++ y') = some (.link target)) ∨
      ∃ item ∈ mapping.pairs, ∃ t'',
        GrownAround R t t'' ∧ t''.nodeItself? item.2 = some (.link target)

/-! ## Opening and dropping the directory for what is set aside -/

/-- A tree with an empty directory for what is set aside, and how it came about. -/
structure Opened (t t₁ t₂ : Tree) (root : Path) (R : Location) (k : Nat) (a : String) : Prop where
  seat : Seat t₁ root R k
  created : Created R t t₁
  null : hasNull root.text = false
  name : isName a = true
  fits : Fits root (stash a)
  free : t₁.get? (R ++ stash a) = none
  added : Added (R ++ stash a) .dir t₁ t₂

theorem get?_dropped (m : Location) : (t₃.remove (R ++ stash a)).get? m =
    if R ++ stash a <+: m then none else t₃.get? m :=
  get?_remove (List.append_ne_nil_of_right_ne_nil R (List.cons_ne_nil _ _))

/-- Below the seat, dropping the directory leaves what is outside of it. -/
theorem get?_dropped_below : (t₃.remove (R ++ stash a)).get? (R ++ y) =
    if stash a <+: y then none else t₃.get? (R ++ y) := by
  rw [get?_dropped]
  by_cases hy : stash a <+: y
  · rw [if_pos hy, if_pos ((List.prefix_append_right_inj R).2 hy)]
  · rw [if_neg hy, if_neg fun hpre => hy ((List.prefix_append_right_inj R).1 hpre)]

namespace Opened

variable (h : Opened t t₁ t₂ root R k a)

include h

theorem seat' : Seat t₂ root R k :=
  h.seat.of_sameAround (h.added.sameAround (List.cons_ne_nil _ _))

theorem base : t₂.get? (R ++ stash a) = some .dir := (h.added.get? _).trans (if_pos rfl)

/-- Before the directory was made there was nothing where it is. -/
theorem get?_stash : t₁.get? (R ++ (stash a ++ y)) = none := by
  by_cases hy : y = []
  · rw [hy, List.append_nil]
    exact h.free
  · rw [← List.append_assoc]
    exact get?_append_eq_none (by rw [h.free]; exact nofun) hy

theorem get?_other (hy : ¬ stash a <+: y) : t₂.get? (R ++ y) = t₁.get? (R ++ y) := by
  have hne : R ++ y ≠ R ++ stash a := by
    intro heq
    rw [List.append_cancel_left heq] at hy
    exact hy List.prefix_rfl
  rw [h.added.get?, if_neg hne]

theorem stashed : Stashed t₂ R a [] := by
  intro y _ hne
  by_cases hy : y = []
  · rw [hy, List.append_nil]
    exact ⟨h.base, .inl rfl⟩
  · have hother : R ++ (stash a ++ y) ≠ R ++ stash a := fun heq =>
      hy (List.append_right_eq_self.1 (List.append_cancel_left heq))
    rw [h.added.get?, if_neg hother, h.get?_stash] at hne
    exact absurd rfl hne

/-- No link is new. -/
theorem get?_link {l : Location} {target : String} (hl : t₂.get? l = some (.link target)) :
    t.get? l = some (.link target) := by
  rw [h.added.get?] at hl
  split at hl
  · cases hl
  · exact h.created.grown.of_ne_dir hl nofun

theorem askable (hask : t.Askable R) : t₂.Askable R :=
  hask.of_links (fun l _ hl => ⟨l, h.get?_link hl⟩) fun y _ hy => ⟨y, h.get?_link hy⟩

theorem targetsFit (htargets : t.TargetsFit) : t₂.TargetsFit :=
  fun l target hl => htargets l target (h.get?_link hl)

theorem grownAround (hs : SameAround R t₂ t₃) : GrownAround R t t₃ :=
  .of_grown h.created.grown ((h.added.sameAround (List.cons_ne_nil _ _)).trans hs)

/-- The directory is dropped with all that is in it. -/
theorem dropDir_eq (hs : SameAround R t₂ t₃) (hbase : t₃.get? (R ++ stash a) = some .dir) :
    dropDir (root.within (stash a)) t₃ = t₃.remove (R ++ stash a) := by
  have hseat := h.seat'.of_sameAround hs
  have hplain : Plain ([".manifests"] ++ [a]) := plain_stash h.name
  have hplace : t₃.placeOr (root.within (stash a)) .itself
      (fun reason => .refused reason (root.within (stash a)).text) = .ok (R ++ stash a) :=
    hseat.placeOr h.null hplain h.fits (get?_of_concat (r := [".manifests"]) hbase) (.inl rfl)
  rw [dropDir, removeTree, place, hplace]
  simp [bind, Except.bind, hbase, pure, Except.pure]

theorem sameAround_dropped (hs : SameAround R t₂ t₃) :
    SameAround R t₁ (t₃.remove (R ++ stash a)) := by
  refine ((h.added.sameAround (List.cons_ne_nil _ _)).trans hs).trans ⟨rfl, fun m hm => ?_⟩
  rw [get?_dropped, if_neg]
  intro hpre
  rw [hm ((List.prefix_append R _).trans hpre)] at hpre
  have hlen := hpre.length_le
  rw [List.length_append] at hlen
  exact absurd hlen (by simp [stash])

/-- When all was undone, the tree is what it was, with new directories. -/
theorem reverted (hs : SameAround R t₂ t₃)
    (hrest : ∀ y, ¬ stash a <+: y → t₃.get? (R ++ y) = t₂.get? (R ++ y) ∨
      (t₂.get? (R ++ y) = none ∧ t₃.get? (R ++ y) = some .dir ∧ ∃ x, IsPlace x ∧ y <+: x)) :
    Reverted t (t₃.remove (R ++ stash a)) root R k := by
  have hbelow : ∀ y, (t₃.remove (R ++ stash a)).get? (R ++ y) = t₁.get? (R ++ y) ∨
      (t₁.get? (R ++ y) = none ∧ (t₃.remove (R ++ stash a)).get? (R ++ y) = some .dir ∧
        ∃ x, IsPlace x ∧ y <+: x) := by
    intro y
    rw [get?_dropped_below]
    by_cases hy : stash a <+: y
    · obtain ⟨z, rfl⟩ := hy
      rw [if_pos (List.prefix_append _ _), h.get?_stash]
      exact .inl rfl
    · rw [if_neg hy, ← h.get?_other hy]
      exact hrest y hy
  constructor
  · refine h.created.grown.trans ⟨(h.sameAround_dropped hs).home, fun m => ?_⟩
    by_cases hm : R <+: m
    · obtain ⟨y, rfl⟩ := hm
      rcases hbelow y with heq | ⟨hnone, hdir, -⟩
      · exact .inl heq
      · exact .inr ⟨hnone, hdir⟩
    · exact .inl ((h.sameAround_dropped hs).get? m fun hpre => absurd hpre hm)
  · exact fun _ _ => sited_of_seat (h.seat.of_sameAround (h.sameAround_dropped hs))
  · intro t₁' ht₁' y hlen hhead
    have hcreated : t₁.get? (R ++ y) = t.get? (R ++ y) := by
      rcases h.created.below y with heq | ⟨-, -, hshort⟩
      · exact heq
      · omega
    rw [← hcreated]
    rcases hbelow y with heq | ⟨-, -, x, hx, hyx⟩
    · exact heq
    · exfalso
      obtain ⟨b, rest, rfl⟩ := List.exists_cons_of_ne_nil hx.ne_nil
      cases y with
      | nil => cases hhead
      | cons c more =>
        rw [List.head?_cons] at hhead
        refine hx.head?_ne ?_
        rw [List.head?_cons, ← (List.cons_prefix_cons.1 hyx).1, hhead]

end Opened

/-- Opening a directory for what is set aside only makes directories, and fails or succeeds. -/
theorem openAside_opened (hsite : Sited t root R k)
    (hlinks : ∀ t₁, create root t = (.ok (), t₁) → NoDirLinks t₁ R k) (l : Library) :
    (∃ fault t', openAside root l t = (.error fault, t') ∧ Reverted t t' root R k) ∨
    ∃ t₁ t₂ a, create root t = (.ok (), t₁) ∧
      openAside root l t = (.ok (root.within (stash a)), t₂) ∧
      IsAside l a ∧ Opened t t₁ t₂ root R k a := by
  rcases openAside_spec (fun _ _ => hsite) hlinks l with
    ⟨fault, t', hopen, hgrown, hsame⟩ | ⟨t₁, t₂, a, hcreate, hopen, haside, hfits, hfree, hadd⟩
  · refine .inl ⟨fault, t', hopen, hgrown, fun t₁ ht₁ => ?_, fun t₁ ht₁ y hlen _ => ?_⟩
    · obtain rfl := hsame t₁ ht₁
      obtain ⟨hseat, -⟩ := create_spec hsite ht₁ (hlinks _ ht₁)
      exact sited_of_seat hseat
    · obtain rfl := hsame t₁ ht₁
      obtain ⟨-, hcreated, -⟩ := create_spec hsite ht₁ (hlinks _ ht₁)
      rcases hcreated.below y with heq | ⟨-, -, hshort⟩
      · exact heq
      · omega
  · obtain ⟨hseat, hcreated, hnull, -⟩ := create_spec hsite hcreate (hlinks t₁ hcreate)
    exact .inr ⟨t₁, t₂, a, hcreate, hopen, haside, hseat, hcreated, hnull, haside.isName, hfits,
      hfree, hadd⟩

/-! ## The manifest in a transaction -/

theorem IsPlace.not_above_manifest (h : IsPlace x) : ¬ x <+: manifestNames l := by
  intro hpre
  obtain ⟨b, rest, rfl⟩ := List.exists_cons_of_ne_nil h.ne_nil
  have hb : b = ".manifests" := (List.cons_prefix_cons.1 hpre).1
  exact h.head?_ne (congrArg some hb)

theorem IsPlace.not_below_manifest (h : IsPlace x) : ¬ manifestNames l <+: x := by
  intro hpre
  obtain ⟨b, rest, rfl⟩ := List.exists_cons_of_ne_nil h.ne_nil
  have hb : ".manifests" = b := (List.cons_prefix_cons.1 hpre).1
  exact h.head?_ne (congrArg some hb.symm)

theorem manifest_not_below_stash (ha : a ≠ l.name ++ ".json") : ¬ stash a <+: manifestNames l := by
  intro hpre
  have hname := (List.cons_prefix_cons.1 (List.cons_prefix_cons.1 hpre).2).1
  exact ha hname

/-- Copying leaves a manifest as it is. -/
theorem Midway.get?_manifest {T : Tree} {filled moved : List (List String)}
    (h : Midway T t root R a filled moved) (ha : a ≠ l.name ++ ".json") :
    t.get? (R ++ manifestNames l) = T.get? (R ++ manifestNames l) := by
  have hfilled : manifestNames l ∉ filled := fun hmem =>
    (h.places _ (.inl hmem)).1.not_above_manifest List.prefix_rfl
  have hmoved : ∀ s ∈ moved, ¬ s <+: manifestNames l := fun s hs =>
    (h.places s (.inr hs)).1.not_above_manifest
  rcases h.others _ hfilled hmoved (manifest_not_below_stash ha) with heq | ⟨-, -, x, hx, hpre⟩
  · exact heq
  · exact absurd hpre (h.places x hx).1.not_below_manifest

/-- Opening leaves a manifest as it is. -/
theorem Opened.get?_manifest (h : Opened t t₁ t₂ root R k a) (ha : a ≠ l.name ++ ".json") :
    t₂.get? (R ++ manifestNames l) = t.get? (R ++ manifestNames l) := by
  rw [h.get?_other (manifest_not_below_stash ha)]
  rcases h.created.below (manifestNames l) with heq | ⟨-, -, hlen⟩
  · exact heq
  · exact absurd hlen (by simp [manifestNames])

/-! ## The transaction -/

theorem Opened.fail (h : Opened t t₁ t₂ root R k a) {filled moved : List (List String)}
    (hrec : Recoverable t₂ t₃ root R k a filled moved) :
    ∃ t₄, (undoOf root a filled moved).run t₃ = (.ok (), t₄) ∧
      Reverted t (dropDir (root.within (stash a)) t₄) root R k := by
  obtain ⟨t₄, hrun, haround, hbase, hrest⟩ := undo_spec hrec h.seat' h.null h.name
  refine ⟨t₄, hrun, ?_⟩
  rw [h.dropDir_eq haround hbase]
  exact h.reverted haround hrest

/-- What a transaction leads to that has filled its places and listed them. -/
theorem Opened.installed (h : Opened t t₁ t₂ root R k a) (haside : IsAside l a)
    {filled moved : List (List String)} (hprog : Progress t₂ t₃ root R a filled moved)
    (hlinks : LinksFrom t₂ t₃ R ((inOrder mapping).map Prod.snd))
    (hplaces : ∀ p, p ∈ filled ∨ p ∈ moved ↔ ∃ key ∈ mapping.keys, namesOf key = p)
    {before : List String} {executable : Bool}
    (hbefore : manifestAt root l (t.get? (R ++ manifestNames l)) = .ok before)
    (hadd : Added (R ++ manifestNames l)
      (.file (manifestBytes l (before ++ mapping.keys)) executable) t₃ t₄) :
    Installed t (dropDir (root.within (stash a)) t₄) root R k l mapping := by
  have hstash : ¬ stash a <+: manifestNames l := manifest_not_below_stash (haside.ne_manifest l)
  have hsame : SameAround R t₂ t₄ := hprog.around.trans (hadd.sameAround (List.cons_ne_nil _ _))
  have hne : ∀ {y}, y ≠ manifestNames l → t₄.get? (R ++ y) = t₃.get? (R ++ y) := fun hy => by
    rw [hadd.get?, if_neg fun heq => hy (List.append_cancel_left heq)]
  have hbase : t₄.get? (R ++ stash a) = some .dir := by
    rw [hne, hprog.base]
    intro heq
    exact hstash (heq ▸ List.prefix_rfl)
  rw [h.dropDir_eq hsame hbase]
  have hdropped : ∀ {y}, ¬ stash a <+: y → (t₄.remove (R ++ stash a)).get? (R ++ y) =
      t₄.get? (R ++ y) := fun hy => by rw [get?_dropped_below, if_neg hy]
  have haround := h.sameAround_dropped hsame
  refine ⟨h.seat.of_sameAround haround, .of_grown h.created.grown haround, ?_, ?_, ?_, ?_⟩
  · intro key hkey
    have hmem := (hplaces (namesOf key)).2 ⟨key, hkey, rfl⟩
    have hplace := (hprog.places _ hmem).1
    obtain ⟨n, hn, hdir⟩ := hprog.taken _ (List.mem_append.2 hmem)
    refine ⟨n, ?_, hdir⟩
    rw [hdropped (hplace.not_both List.prefix_rfl), hne, hn]
    intro heq
    rw [heq] at hplace
    exact hplace.not_above_manifest List.prefix_rfl
  · refine ⟨before, executable, hbefore, ?_⟩
    rw [hdropped hstash, hadd.get?, if_pos rfl]
  · intro y hy hmanifest
    by_cases hin : stash a <+: y
    · -- what is in the directory was not there before
      obtain ⟨z, rfl⟩ := hin
      rw [get?_dropped_below, if_pos (List.prefix_append _ _)]
      rcases h.created.grown.get? (R ++ (stash a ++ z)) with heq | ⟨hnone, -⟩
      · rw [← heq, h.get?_stash]
        exact .inl rfl
      · exact .inl hnone.symm
    have hnot : ∀ p, p ∈ filled ∨ p ∈ moved → ¬ p <+: y := by
      intro p hp hpy
      obtain ⟨key, hkey, rfl⟩ := (hplaces p).1 hp
      exact hy key hkey hpy
    rw [hdropped hin, hne hmanifest]
    rcases hprog.others y (fun hmem => hnot y (.inl hmem) List.prefix_rfl)
      (fun s hs => hnot s (.inr hs)) hin with heq | ⟨hnone, hdir, x, hx, hyx⟩
    · rw [heq, h.get?_other hin]
      rcases h.created.below y with heq' | ⟨hnone, hdir, hlen⟩
      · exact .inl heq'
      · exact .inr ⟨hnone, hdir, .inl hlen⟩
    · rw [h.get?_other hin] at hnone
      refine .inr ⟨?_, hdir, .inr ⟨x, (hprog.places x hx).1, hyx⟩⟩
      rcases h.created.below y with heq' | ⟨-, hdir', -⟩
      · rw [← heq', hnone]
      · rw [hdir'] at hnone
        cases hnone
  · intro y target hy
    have hy₃ : t₃.get? (R ++ y) = some (.link target) := by
      rw [get?_dropped_below] at hy
      split at hy
      · cases hy
      · rw [hadd.get?] at hy
        split at hy
        · cases hy
        · exact hy
    rcases hlinks y target hy₃ with ⟨y', hy'⟩ | ⟨source, hsource, t'', hs, hlink⟩
    · exact .inl ⟨y', h.get?_link hy'⟩
    · obtain ⟨item, hitem, rfl⟩ := List.mem_map.1 hsource
      exact .inr ⟨item, mem_inOrder.1 hitem, t'', h.grownAround hs, hlink⟩

/-- An installation that is ready fails and leaves things as they were, or installs everything. -/
theorem transact_spec (h : Ready t root R k l mapping) :
    (∃ fault t', transact root l mapping t = (.error fault, t') ∧ Reverted t t' root R k) ∨
    ∃ t', transact root l mapping t =
        (.ok ((inOrder mapping).map fun item => root / item.1), t') ∧
      Installed t t' root R k l mapping := by
  rcases openAside_opened h.site (fun t₁ ht₁ => h.links t₁ (.created ht₁)) l with
    ⟨fault, t', hopen, hrev⟩ | ⟨t₁, t₂, a, -, hopen, haside, hopened⟩
  · obtain ⟨fault', heq⟩ : ∃ fault', transact root l mapping t = (.error fault', t') :=
      transact_of_error hopen
    exact .inl ⟨fault', t', heq, hrev⟩
  have hentries : ∀ item ∈ inOrder mapping, IsEntry item (namesOf item.1) := fun item hitem =>
    h.entries item (mem_inOrder.1 hitem)
  have hsources : ∀ item ∈ inOrder mapping, SourceFits t₂ R item.2 :=
      fun item hitem t' target hs hl =>
    hopened.targetsFit (h.sources item (mem_inOrder.1 hitem) t' target (hopened.grownAround hs) hl)
  have hplaces : ∀ {filled moved : List (List String)},
      (∀ p, p ∈ filled ∨ p ∈ moved ↔ p ∈ (inOrder mapping).map fun item => namesOf item.1) →
      ∀ p, p ∈ filled ∨ p ∈ moved ↔ ∃ key ∈ mapping.keys, namesOf key = p := by
    intro filled moved hmem p
    rw [hmem p, List.mem_map]
    constructor
    · rintro ⟨item, hitem, rfl⟩
      exact ⟨item.1, List.mem_map.2 ⟨item, mem_inOrder.1 hitem, rfl⟩, rfl⟩
    · rintro ⟨key, hkey, rfl⟩
      obtain ⟨item, hitem, rfl⟩ := List.mem_map.1 hkey
      exact ⟨item, mem_inOrder.2 hitem, rfl⟩
  rcases copyEach_spec hopened.seat' hopened.null hopened.name (hopened.askable h.askable)
    hopened.base hopened.stashed hentries hsources (inOrder_sorted h.entries)
    (fun done filled moved t' hdone hcopy _ _ item hitem =>
      (h.links t' (.copied hopen hdone hcopy)).straight) with
    ⟨e, filled, moved, t₃, hcopy, hrec⟩ | ⟨filled, moved, t₃, hcopy, hprog, hlinks, hmem, -⟩
  · obtain ⟨t₄, hrun, hrev⟩ := hopened.fail hrec
    exact .inl ⟨_, _, transact_of_refused hopen hcopy hrun, hrev⟩
  have hseat₃ := hopened.seat'.of_sameAround hprog.around
  have hmanifest : t₃.get? (R ++ manifestNames l) = t.get? (R ++ manifestNames l) := by
    rw [hprog.get?_manifest (haside.ne_manifest l), hopened.get?_manifest (haside.ne_manifest l)]
  have hdir : t₃.get? (R ++ [".manifests"]) = some .dir :=
    get?_of_concat (r := [".manifests"]) hprog.base
  rcases recordFiles_spec hseat₃ hopened.null hdir (by rw [hmanifest]; exact h.manifest)
    (by rw [hmanifest]; exact h.readable) mapping.keys with
    ⟨e, hrecord, -⟩ | ⟨before, t₄, -, hbefore, hrecord, hadd⟩
  · obtain ⟨t₄, hrun, hrev⟩ := hopened.fail (k := k) hprog.recoverable
    exact .inl ⟨_, _, transact_of_unrecorded hopen hcopy hrecord hrun, hrev⟩
  · rw [hmanifest] at hbefore
    exact .inr ⟨_, transact_of_ok hopen hcopy hrecord,
      hopened.installed haside hprog hlinks (hplaces hmem) hbefore hadd⟩

end Sysroot.Install

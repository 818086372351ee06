import Sysroot.Proofs.Install.Mapping

/-!
# What an installation puts where

`Installed` tells which places an installation takes.  Each of them holds a copy of its source, as
it is while the installation goes on, and the manifest lists the places besides what it listed
before (`transact_filled`).  Sources that lie outside of the sysroot do not change meanwhile, so
that each place holds the file that its source was at first (`Request.Aimed.filled`).
-/

namespace Sysroot.Install

open Sysroot.Tree Sysroot.Tree.Action

variable {t t' : Tree} {root dir source : Path} {R : Location} {k : Nat} {l : Library}
  {m : OrderedMap String Path} {files : List Path} {item : String × Path} {x : List String}

/-- Opening a transaction in a sysroot that is there stays in it. -/
theorem staysBelow_openAside (root : Path) (l : Library) :
    StaysBelow root R k (openAside root l) := by
  have hsection : ∀ {name : String}, isName name = true →
      StaysBelow root R k (ensureDirs (root / name)) := fun {name} hname =>
    staysBelow_ensureDirs ⟨[name], List.cons_ne_nil _ _, Plain.descending (by simpa using hname),
      Path.div_name hname⟩
  have hcreate : StaysBelow root R k (create root) :=
    (hsection (by decide)).bind fun _ => (hsection (by decide)).bind fun _ => hsection (by decide)
  refine hcreate.bind fun _ => reads_get.staysBelow.bind fun t₁ => ?_
  have hname := (isAside_freeName t₁ (manifestDir root) l).isName
  have hpath : Below root (manifestDir root / freeName t₁ (manifestDir root) (l.name ++ "-")) := by
    rw [Path.div_name hname, manifestDir_eq, Path.within_within]
    exact ⟨_, List.cons_ne_nil _ _, (plain_stash hname).descending, rfl⟩
  refine (staysBelow_apply fun t t' h => Touched.changedBelow fun hseat hlinks => ?_).bind
    fun _ => (reads_pure _).staysBelow
  obtain ⟨m, hm, htouched⟩ := makeDir_touched h
  obtain ⟨names, hne, rfl⟩ := hpath.locate_ok hseat hlinks hm
  exact ⟨names, hne, htouched⟩

/-- The course of a transaction that goes well: a directory for what is set aside is opened, the
copying fills every place, the places are recorded, and the directory is dropped. -/
structure Course (t t₁ t₂ t₃ t₄ t' : Tree) (root : Path) (R : Location) (k : Nat) (l : Library)
    (m : OrderedMap String Path) (a : String) (filled moved : List (List String))
    (before : List String) : Prop where
  created : create root t = (.ok (), t₁)
  opening : openAside root l t = (.ok (root.within (stash a)), t₂)
  aside : IsAside l a
  opened : Opened t t₁ t₂ root R k a
  progress : Progress t₂ t₃ root R a filled moved
  places : ∀ p, p ∈ filled ∨ p ∈ moved ↔ ∃ item ∈ m.pairs, namesOf item.1 = p
  copied : ∀ item ∈ m.pairs, Filled t₂ t₃ R item
  fits : Fits root (manifestNames l)
  listed : manifestAt root l (t.get? (R ++ manifestNames l)) = .ok before
  recorded : Added (R ++ manifestNames l) (.file (manifestBytes l (before ++ m.keys))
    (mayRun (t.get? (R ++ manifestNames l)))) t₃ t₄
  dropped : t' = t₄.remove (R ++ stash a)

/-- A transaction that is ready and goes well takes this course. -/
theorem transact_course (h : Ready t root R k l m) (hok : transact root l m t = (.ok files, t')) :
    ∃ t₁ t₂ t₃ t₄ a filled moved before,
      Course t t₁ t₂ t₃ t₄ t' root R k l m a filled moved before := by
  have hmiss : ∀ {fault t''}, transact root l m t ≠ (.error fault, t'') := fun heq => by
    rw [hok] at heq
    cases heq
  rcases openAside_opened h.site (fun t₁ ht₁ => h.links t₁ (.created ht₁)) l with
    ⟨fault, t'', hopen, -⟩ | ⟨t₁, t₂, a, hcreate, hopen, haside, hopened⟩
  · obtain ⟨fault', heq⟩ : ∃ fault', transact root l m t = (.error fault', t'') :=
      transact_of_error hopen
    exact absurd heq hmiss
  have hentries : ∀ item ∈ inOrder m, IsEntry item (namesOf item.1) := fun item hitem =>
    h.entries item (mem_inOrder.1 hitem)
  rcases copyEach_spec hopened.seat' hopened.null hopened.name (hopened.askable h.askable)
    hopened.base hopened.stashed hentries
    (fun item hitem t' target hs hl =>
      hopened.targetsFit (h.sources item (mem_inOrder.1 hitem) t' target (hopened.grownAround hs) hl))
    (inOrder_sorted h.entries)
    (fun done filled moved t' hdone hcopy _ _ item hitem =>
      (h.links t' (.copied hopen hdone hcopy)).straight) with
    ⟨e, filled, moved, t₃, hcopy, hrec⟩ | ⟨filled, moved, t₃, hcopy, hprog, -, hmem, hfilled⟩
  · obtain ⟨t₄, hrun, -⟩ := hopened.fail hrec
    exact absurd (transact_of_refused hopen hcopy hrun) hmiss
  have hseat₃ := hopened.seat'.of_sameAround hprog.around
  have hmanifest : t₃.get? (R ++ manifestNames l) = t.get? (R ++ manifestNames l) := by
    rw [hprog.get?_manifest (haside.ne_manifest l), hopened.get?_manifest (haside.ne_manifest l)]
  have hdir : t₃.get? (R ++ [".manifests"]) = some .dir :=
    get?_of_concat (r := [".manifests"]) hprog.base
  rcases recordFiles_spec hseat₃ hopened.null hdir (by rw [hmanifest]; exact h.manifest)
    (by rw [hmanifest]; exact h.readable) m.keys with
    ⟨e, hrecord, -⟩ | ⟨before, t₄, hfits, hbefore, hrecord, hadd⟩
  · obtain ⟨t₄, hrun, -⟩ := hopened.fail (k := k) hprog.recoverable
    exact absurd (transact_of_unrecorded hopen hcopy hrecord hrun) hmiss
  rw [hmanifest] at hbefore hadd
  rw [transact_of_ok hopen hcopy hrecord] at hok
  obtain ⟨-, rfl⟩ := Prod.mk.inj hok
  refine ⟨t₁, t₂, t₃, t₄, a, filled, moved, before, hcreate, hopen, haside, hopened, hprog, fun p => ?_,
    fun item hitem => hfilled item (mem_inOrder.2 hitem), hfits, hbefore, hadd, ?_⟩
  · rw [hmem, List.mem_map]
    simp only [mem_inOrder]
  · refine hopened.dropDir_eq (hprog.around.trans (hadd.sameAround (List.cons_ne_nil _ _))) ?_
    rw [hadd.get?, if_neg, hprog.base]
    intro heq
    refine manifest_not_below_stash (haside.ne_manifest l) ?_
    rw [List.append_cancel_left heq]

namespace Course

variable {t₁ t₂ t₃ t₄ : Tree} {a : String} {filled moved : List (List String)} {before : List String}
  (h : Course t t₁ t₂ t₃ t₄ t' root R k l m a filled moved before)

include h

/-- Outside of the sysroot nothing changes after the directory for what is set aside was opened. -/
theorem sameAround : SameAround R t₂ t' := by
  have hsame : SameAround R t₂ t₄ := h.progress.around.trans (h.recorded.sameAround (List.cons_ne_nil _ _))
  rw [h.dropped]
  refine ⟨home_remove.trans hsame.home, fun m hm => ?_⟩
  rw [get?_dropped, if_neg, hsame.get? m hm]
  rintro ⟨r, rfl⟩
  rw [List.append_assoc] at hm
  exact absurd (List.append_right_eq_self.1 (hm (List.prefix_append _ _))) (by simp [stash])

/-- What is at a place of the sysroot after the copying is there in the end, but for the manifest. -/
theorem get?_other {y : List String} (hstash : ¬ stash a <+: y) (hy : y ≠ manifestNames l) :
    t'.get? (R ++ y) = t₃.get? (R ++ y) := by
  rw [h.dropped, get?_dropped_below, if_neg hstash, h.recorded.get?,
    if_neg fun heq => hy (List.append_cancel_left heq)]

theorem get?_manifest : t'.get? (R ++ manifestNames l) =
    some (.file (manifestBytes l (before ++ m.keys)) (mayRun (t.get? (R ++ manifestNames l)))) := by
  rw [h.dropped, get?_dropped_below, if_neg (manifest_not_below_stash (h.aside.ne_manifest l)),
    h.recorded.get?, if_pos rfl]

/-- The places are those of files, and their paths fit. -/
theorem place (hitem : item ∈ m.pairs) : IsPlace (namesOf item.1) ∧ Fits root (namesOf item.1) :=
  h.progress.places _ ((h.places _).2 ⟨item, hitem, rfl⟩)

/-- Each place is left as the copying left it. -/
theorem get?_place (hitem : item ∈ m.pairs) :
    t'.get? (R ++ namesOf item.1) = t₃.get? (R ++ namesOf item.1) :=
  h.get?_other ((h.place hitem).1.not_both List.prefix_rfl) fun heq =>
    (h.place hitem).1.not_above_manifest (l := l) (by rw [heq])

end Course

/-- Each place of a transaction that goes well holds a copy of its source, and its manifest lists
the places besides what it listed before. -/
theorem transact_filled (h : Ready t root R k l m)
    (hok : transact root l m t = (.ok files, t')) :
    (∃ aside t₂, openAside root l t = (.ok aside, t₂) ∧ SameAround R t₂ t') ∧
    Fits root (manifestNames l) ∧
    (∀ item ∈ m.pairs, Fits root (namesOf item.1) ∧ ∃ t₁ n, GrownAround R t t₁ ∧
      IsCopy t₁ item.2 n ∧ t'.get? (R ++ namesOf item.1) = some n) ∧
    ∃ before, manifestAt root l (t.get? (R ++ manifestNames l)) = .ok before ∧
      t'.get? (R ++ manifestNames l) = some (.file (manifestBytes l (before ++ m.keys))
        (mayRun (t.get? (R ++ manifestNames l)))) := by
  obtain ⟨t₁, t₂, t₃, t₄, a, filled, moved, before, hcourse⟩ := transact_course h hok
  refine ⟨⟨_, t₂, hcourse.opening, hcourse.sameAround⟩, hcourse.fits, fun item hitem => ?_, before,
    hcourse.listed, hcourse.get?_manifest⟩
  obtain ⟨t₅, n, hs, hcopied, hn⟩ := hcourse.copied item hitem
  exact ⟨(hcourse.place hitem).2, t₅, n, hcourse.opened.grownAround hs, hcopied,
    (hcourse.get?_place hitem).trans hn⟩

/-! ## Sources outside of the sysroot -/

/-- A copy of a file from outside of the sysroot is the file that the path led to at first. -/
theorem Outside.eq_of_isCopy (h : Outside t R dir) (hsource : source ∈ t.filesUnder dir)
    (hgrown : GrownAround R t t') {n : Node} (hcopy : IsCopy t' source n) :
    ∃ content executable, n = .file content executable ∧ t.node? source = some n := by
  obtain ⟨D, r, n', hlocate, hr, rfl, hn, hne⟩ := exists_of_mem_filesUnder hsource
  have hlink := h.ne_link hsource hgrown
  cases hcopy with
  | @link target hl => exact absurd hl (hlink target)
  | @file content hcontent =>
    obtain ⟨hn', hl⟩ := h.locate_within hlocate hr hn hgrown .target
    obtain ⟨L, hplace, hread⟩ := Effect.except_bind_ok hcontent
    have hL : t'.locate (dir.within r) = .ok L := by
      rw [place, placeOr] at hplace
      split at hplace
      · cases hplace
      · exact Effect.mapError_ok hplace
    have hfits : Fits dir r := by
      by_contra hno
      rw [locate_of_not_fits hno] at hL
      cases hL
    obtain rfl := Except.ok.inj ((hl hfits).symm.trans hL)
    have hhere : t.locate (dir.within r) = .ok (D ++ r) :=
      (h.locate_within hlocate hr hn (.of_grown (.refl t) (.refl R t)) .target).2 hfits
    rw [hn'] at hread
    rw [isProgram, node?, node?, hL, hhere]
    simp only [hn']
    cases n' with
    | file content' executable =>
      cases hread
      exact ⟨_, _, rfl, hn⟩
    | link target => cases hread
    | dir => exact absurd rfl hne

/-- What a request from outside of a sysroot without links leads to when it is carried out: each of
its places holds the file that its source was, and the manifest lists the places besides what it
listed before. -/
theorem Request.Aimed.filled {r : Request} (hr : r.Aimed t R) (hsite : Sited t root R k)
    (hnull : hasNull root.text = false) (hlinks : NoLinks t R)
    (hok : r.run root l t = (.ok files, t')) :
    ∃ m, r.mapping l t = (.ok m, t) ∧ files = (inOrder m).map (fun item => root / item.1) ∧
    Installed t t' root R k l m ∧ NoLinks t' R ∧ (Seat t root R k → SameAround R t t') ∧
    (∀ item ∈ m.pairs, IsEntry item (namesOf item.1) ∧ Fits root (namesOf item.1) ∧
      ∃ content executable, t.node? item.2 = some (.file content executable) ∧
        t'.get? (R ++ namesOf item.1) = some (.file content executable)) ∧
    Fits root (manifestNames l) ∧
    ∃ before, manifestAt root l (t.get? (R ++ manifestNames l)) = .ok before ∧
      t'.get? (R ++ manifestNames l) = some (.file (manifestBytes l (before ++ m.keys))
        (mayRun (t.get? (R ++ manifestNames l)))) := by
  rcases Request.run_cases root l r t with ⟨fault, hfail⟩ | ⟨m, owned, hm, howned, -, hrun⟩
  · rw [hfail] at hok
    cases hok
  rw [hrun] at hok
  have hitems : ∀ item ∈ m.pairs, IsEntry item (namesOf item.1) ∨
      ∃ front b more last, IsStray item front b more last := fun item hitem =>
    (hr.inward.mapping_ok hm item hitem).1.elim And.right fun h => .inl h.2
  have hentries : ∀ item ∈ m.pairs, IsEntry item (namesOf item.1) := by
    by_contra hno
    push Not at hno
    obtain ⟨fault, t'', hfail, -⟩ :=
      transact_astray (l := l) hsite hlinks hitems (hr.ne_link hm) hno
    rw [hfail] at hok
    cases hok
  have hready := ready_of_noLinks (l := l) hsite hnull hlinks hentries (hr.ne_link hm) howned
  obtain ⟨⟨aside, t₂, hopen, hsame⟩, hfits, hplaces, hmanifest⟩ := transact_filled hready hok
  have haround : Seat t root R k → SameAround R t t' := fun hseat => by
    have hbelow : ChangedBelow root R k t t₂ :=
      (staysBelow_openAside root l).of_apply hopen fun _ _ => trivial
    exact (hbelow hseat hlinks).1.trans hsame
  rcases transact_of_noLinks (l := l) hsite hnull hlinks hentries (hr.ne_link hm) howned with
    ⟨fault, t'', hfail, -⟩ | ⟨t'', hdone, hinst, hlinks'⟩
  · rw [hfail] at hok
    cases hok
  rw [hdone] at hok
  cases hok
  refine ⟨m, hm, rfl, hinst, hlinks', haround, fun item hitem => ?_, hfits, hmanifest⟩
  obtain ⟨hfit, t₁, n, hgrown, hcopy, hn⟩ := hplaces item hitem
  obtain ⟨-, dir, hdir, hsource⟩ := hr.inward.mapping_ok hm item hitem
  obtain ⟨content, executable, rfl, hnode⟩ :=
    (hr.outside dir hdir).eq_of_isCopy hsource hgrown hcopy
  exact ⟨hentries item hitem, hfit, content, executable, hnode, hn⟩

/-! ## Files below a seat -/

/-- What a question finds below a path is a directory, or is listed. -/
theorem mem_filesUnder_of_occupies (hseat : Seat t root R k) (hlinks : NoLinks t R)
    {front rest : List String} (hfront : front ≠ []) (hrest : rest ≠ [])
    (hnames : Descending (front ++ rest))
    (hocc : t.query (root.within (front ++ rest)) Tree.occupies = .ok true) :
    t.isDir (root.within (front ++ rest)) = true ∨
      root.within (front ++ rest) ∈ t.filesUnder (root.within front) := by
  have hne : front ++ rest ≠ [] := List.append_ne_nil_of_left_ne_nil hfront rest
  obtain ⟨n, hnode⟩ := hseat.exists_node? hlinks hne hnames ((query_ok hocc).resolve_right nofun)
  by_cases hdir : n = .dir
  · exact .inl (by rw [Tree.isDir, hnode, hdir]; rfl)
  obtain ⟨hfits, hn⟩ := (hseat.node?_eq_some hlinks hne hnames).1 hnode
  have hplain : Plain (front ++ rest) := fun name hname =>
    isName_of_get? hn name (List.mem_append_right R hname)
  rw [← List.append_assoc] at hn
  have hlocate : t.locate (root.within front) = .ok (R ++ front) :=
    hseat.locate_of_get? hlinks hfront (hfits.of_append (plain_append.1 hplain).2)
      (get?_of_append hn hrest)
  refine .inr ((mem_filesUnder hlocate).2 ⟨rest, n, hrest, ?_, hn, hdir⟩)
  rw [Path.within_within]

/-- Whether there is a file at a location. -/
def HasFile (t : Tree) (l : Location) : Prop :=
  ∃ content executable, t.get? l = some (.file content executable)

/-- In a sysroot without links a path that goes down from its root leads to a file when there is one
at its place. -/
theorem query_isFile_iff (hseat : Seat t root R k) (hlinks : NoLinks t R) (hne : x ≠ [])
    (hx : Descending x) :
    t.query (root.within x) Tree.isFile = .ok true ↔ Fits root x ∧ HasFile t (R ++ x) := by
  have hfile : t.isFile (root.within x) = true ↔ Fits root x ∧ HasFile t (R ++ x) := by
    have hnode : ∀ n, t.node? (root.within x) = some n ↔ Fits root x ∧ t.get? (R ++ x) = some n :=
      fun n => hseat.node?_eq_some hlinks hne hx
    simp only [HasFile, ← exists_and_left, ← hnode]
    rw [Tree.isFile]
    split
    · next content executable heq => exact ⟨fun _ => ⟨content, executable, heq⟩, fun _ => rfl⟩
    · next hno => exact ⟨nofun, fun ⟨content, executable, heq⟩ => absurd heq (hno content executable)⟩
  rw [← hfile]
  constructor
  · exact fun h => (query_ok h).resolve_right nofun
  · intro h
    obtain ⟨hfits, content, executable, hn⟩ := hfile.1 h
    rw [query_eq_ok (by rw [hseat.locate_of_get? hlinks hne hfits hn]; exact nofun), h]

/-- The files of a sysroot after an installation of files are those that it put there, and those
before that it put no file at or above. -/
theorem Installed.hasFile_iff (h : Installed t t' root R k l m)
    (hfiles : ∀ item ∈ m.pairs, HasFile t' (R ++ namesOf item.1)) (hx : x ≠ manifestNames l) :
    HasFile t' (R ++ x) ↔ (∃ item ∈ m.pairs, namesOf item.1 = x) ∨
      HasFile t (R ++ x) ∧ ∀ item ∈ m.pairs, ¬ namesOf item.1 <+: x := by
  by_cases habove : ∃ item ∈ m.pairs, namesOf item.1 <+: x
  · obtain ⟨item, hitem, y, rfl⟩ := habove
    rw [or_iff_left fun hno => hno.2 item hitem (List.prefix_append _ y)]
    constructor
    · rintro ⟨content, executable, hn⟩
      refine ⟨item, hitem, ?_⟩
      by_contra hne
      obtain ⟨content', executable', hfile⟩ := hfiles item hitem
      have hy : y ≠ [] := fun hnil => hne (by rw [hnil, List.append_nil])
      rw [← List.append_assoc] at hn
      have hdir := get?_of_append hn hy
      rw [hfile] at hdir
      cases hdir
    · rintro ⟨item', hitem', heq⟩
      exact heq ▸ hfiles item' hitem'
  · push Not at habove
    rw [or_iff_right fun ⟨item, hitem, heq⟩ => habove item hitem (heq ▸ List.prefix_rfl),
      and_iff_left habove]
    have hothers := h.others x (fun key hkey => by
      obtain ⟨item, hitem, rfl⟩ := List.mem_map.1 hkey
      exact habove item hitem) hx
    rcases hothers with heq | ⟨hnone, hdir, -⟩
    · rw [HasFile, HasFile, heq]
    · simp [HasFile, hnone, hdir]

theorem IsEntry.div_eq (h : IsEntry item x) (root : Path) :
    root / item.1 = root.within (namesOf item.1) := by
  rw [h.key, Path.div_text_ofNames h.place.plain, ← h.key, ← h.eq_namesOf]

/-- The installed files are at the places of the mapping. -/
theorem mem_installed (hentries : ∀ item ∈ m.pairs, IsEntry item (namesOf item.1)) :
    root.within x ∈ (inOrder m).map (fun item => root / item.1) ↔
      ∃ item ∈ m.pairs, namesOf item.1 = x := by
  rw [List.mem_map]
  constructor
  · rintro ⟨item, hitem, heq⟩
    rw [mem_inOrder] at hitem
    exact ⟨item, hitem, within_injective ((hentries item hitem).div_eq root ▸ heq)⟩
  · rintro ⟨item, hitem, rfl⟩
    exact ⟨item, mem_inOrder.2 hitem, (hentries item hitem).div_eq root⟩

/-- A request installs a file wherever it gives a source. -/
theorem Request.Aimed.mem_files {r : Request} (hr : r.Aimed t R) (hstandard : r.Standard)
    (hsite : Sited t root R k) (hnull : hasNull root.text = false) (hlinks : NoLinks t R)
    (hok : r.run root l t = (.ok files, t')) :
    root.within x ∈ files ↔ ∃ source, r.Gives t x source := by
  obtain ⟨m, hm, rfl, -, -, -, hitems, -⟩ := hr.filled hsite hnull hlinks hok
  rw [mem_installed fun item hitem => (hitems item hitem).1]
  constructor
  · rintro ⟨item, hitem, rfl⟩
    obtain ⟨y, hkey, hgives⟩ := (Request.mem_mapping hr.inward hstandard hm).1 hitem
    rw [namesOf, hkey, hgives.spelled.ofText_text]
    exact ⟨item.2, hgives⟩
  · rintro ⟨source, hgives⟩
    refine ⟨((Path.ofNames x).text, source),
      (Request.mem_mapping hr.inward hstandard hm).2 ⟨x, rfl, hgives⟩, ?_⟩
    rw [namesOf, hgives.spelled.ofText_text]
    rfl

/-- After a request was carried out a path that goes down from the sysroot leads to a file if that
was installed, or if it did so before and no file was installed at a directory on the way. -/
theorem Request.Aimed.query_isFile_iff {r : Request} (hr : r.Aimed t R) (hseat : Seat t root R k)
    (hlinks : NoLinks t R) (hok : r.run root l t = (.ok files, t')) (hne : x ≠ [])
    (hx : Descending x) (hmanifest : x ≠ manifestNames l) :
    t'.query (root.within x) Tree.isFile = .ok true ↔ root.within x ∈ files ∨
      t.query (root.within x) Tree.isFile = .ok true ∧
        ∀ f ∈ files, ¬ f.parts <+: (root.within x).parts := by
  obtain ⟨m, hm, rfl, hinst, hlinks', -, hitems, -⟩ :=
    hr.filled (sited_of_seat hseat) hseat.null hlinks hok
  have habove : (∀ f ∈ (inOrder m).map (fun item => root / item.1),
      ¬ f.parts <+: (root.within x).parts) ↔ ∀ item ∈ m.pairs, ¬ namesOf item.1 <+: x := by
    simp only [List.forall_mem_map, mem_inOrder]
    refine forall₂_congr fun item hitem => not_congr ?_
    rw [(hitems item hitem).1.div_eq]
    exact List.prefix_append_right_inj root.parts
  rw [mem_installed fun item hitem => (hitems item hitem).1, habove,
    Install.query_isFile_iff hinst.seat hlinks' hne hx, Install.query_isFile_iff hseat hlinks hne hx,
    hinst.hasFile_iff (fun item hitem => (hitems item hitem).2.2.imp fun _ h =>
      h.imp fun _ h => h.2) hmanifest]
  constructor
  · rintro ⟨hfits, hfile | ⟨hfile, hno⟩⟩
    · exact .inl hfile
    · exact .inr ⟨⟨hfits, hfile⟩, hno⟩
  · rintro (⟨item, hitem, rfl⟩ | ⟨⟨hfits, hfile⟩, hno⟩)
    · exact ⟨(hitems item hitem).2.1, .inl ⟨item, hitem, rfl⟩⟩
    · exact ⟨hfits, .inr ⟨hfile, hno⟩⟩

end Sysroot.Install

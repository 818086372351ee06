import Sysroot.Proofs.Install.Undoing

/-!
# Where a sysroot is

The path of a sysroot leads to a directory, followed by names of directories that are yet to be
made (`Sited`).  Making the directories of the sysroot then adds those and the three directly in it
(`create_spec`), and a directory for what is set aside comes to a free place among the manifests
(`openAside_spec`).
-/

namespace Sysroot.Install

open Sysroot.Tree Sysroot.Tree.Action

variable {t t' t₁ t₂ : Tree} {root base : Path} {R B l : Location} {k : Nat} {a name : String}
  {x y names missing : List String} {library : Library}

/-! ## Sites -/

/-- Whether the path of a root leads to a location below a seat, where the missing directories can
be made. -/
def Sited (t : Tree) (root : Path) (R : Location) (k : Nat) : Prop :=
  ∃ base B missing, root = base.within missing ∧ R = B ++ missing ∧ Plain missing ∧
    Seat t base B k ∧ ∀ first rest, missing = first :: rest → t.get? (B ++ [first]) = none

theorem sited_of_seat (h : Seat t root R k) : Sited t root R k :=
  ⟨root, R, [], Path.within_nil.symm, (List.append_nil R).symm, plain_nil, h, nofun⟩

/-- A site with its directory there is a seat. -/
theorem Sited.seat (h : Sited t root R k) (hdir : t.get? R = some .dir) : Seat t root R k := by
  obtain ⟨base, B, missing, rfl, rfl, hplain, hseat, hfree⟩ := h
  exact hseat.within hplain hdir

/-- At a site without its directory there is nothing. -/
theorem Sited.get?_eq_none (h : Sited t root R k) (hdir : t.get? R ≠ some .dir) :
    t.get? (R ++ y) = none := by
  obtain ⟨base, B, missing, rfl, rfl, hplain, hseat, hfree⟩ := h
  cases missing with
  | nil => exact absurd hseat.dir (by rwa [List.append_nil] at hdir)
  | cons first rest =>
    have hne : t.get? (B ++ [first]) ≠ some .dir := by
      rw [hfree first rest rfl]
      exact nofun
    by_cases hrest : rest ++ y = []
    · rw [List.append_assoc, List.cons_append, hrest]
      exact hfree first rest rfl
    · have hbelow := get?_append_eq_none hne hrest
      simpa only [List.append_assoc, List.singleton_append, List.cons_append, List.nil_append]
        using hbelow

/-! ## Making the directories of a sysroot -/

/-- Whether a tree has new directories, of those below a location only ones directly in it. -/
structure Created (R : Location) (t t' : Tree) : Prop where
  grown : t.Grown t'
  below : ∀ y, t'.get? (R ++ y) = t.get? (R ++ y) ∨
    (t.get? (R ++ y) = none ∧ t'.get? (R ++ y) = some .dir ∧ y.length ≤ 1)

theorem Created.trans (h : Created R t t₁) (h' : Created R t₁ t₂) : Created R t t₂ := by
  refine ⟨h.grown.trans h'.grown, fun y => ?_⟩
  rcases h'.below y with heq' | ⟨hnone', hdir', hlen⟩
  · rw [heq']
    exact h.below y
  · rcases h.below y with heq | ⟨-, hdir, -⟩
    · exact .inr ⟨heq ▸ hnone', hdir', hlen⟩
    · rw [hdir] at hnone'
      cases hnone'

theorem Created.of_paved (h : Paved B (missing ++ [name]) t t') : Created (B ++ missing) t t' := by
  refine ⟨h.grown, fun y => ?_⟩
  rcases h.grown.get? (B ++ missing ++ y) with heq | ⟨hnone, hdir⟩
  · exact .inl heq
  · refine .inr ⟨hnone, hdir, ?_⟩
    by_contra hlen
    have hsame : t'.get? (B ++ missing ++ y) = t.get? (B ++ missing ++ y) := by
      refine h.get?_of_not_above fun hpre => hlen ?_
      have hle := hpre.length_le
      simp only [List.length_append, List.length_singleton] at hle
      omega
    rw [hnone, hdir] at hsame
    cases hsame

/-- Whether trees differ below a location at most, save for new directories in one of them. -/
structure GrownAround (R : Location) (t t' : Tree) : Prop where
  home : t'.home = t.home
  get? : ∀ l, (R <+: l → l = R) →
    t'.get? l = t.get? l ∨ (t.get? l = none ∧ t'.get? l = some .dir)

theorem GrownAround.of_grown (hg : t.Grown t₁) (hs : SameAround R t₁ t₂) : GrownAround R t t₂ := by
  refine ⟨hs.home.trans hg.home, fun l hl => ?_⟩
  rw [hs.get? l hl]
  exact hg.get? l

theorem create_ok (h : create root t = (.ok (), t')) :
    ∃ ta tb, ensureDirs (includeDir root) t = (.ok (), ta) ∧
      ensureDirs (libDir root) ta = (.ok (), tb) ∧
      ensureDirs (manifestDir root) tb = (.ok (), t') := by
  obtain ⟨_, ta, ha, h⟩ := Effect.bind_ok h
  obtain ⟨_, tb, hb, h⟩ := Effect.bind_ok h
  exact ⟨ta, tb, ha, hb, h⟩

/-- Making the directories of a sysroot adds directories, wherever it stops. -/
theorem create_grown (root : Path) (t : Tree) : t.Grown (create root t).2 := by
  have hbind : ∀ {x y : Action Unit}, (∀ t : Tree, t.Grown (x t).2) →
      (∀ t : Tree, t.Grown (y t).2) → ∀ t : Tree, t.Grown ((x >>= fun _ => y) t).2 := by
    intro x y hx hy t
    rw [Effect.bind_apply]
    have hfirst := hx t
    rcases h : x t with ⟨e | _, t₁⟩ <;> rw [h] at hfirst
    · exact hfirst
    · exact hfirst.trans (hy t₁)
  exact hbind (fun _ => ensureDirs_grown)
    (hbind (fun _ => ensureDirs_grown) fun _ => ensureDirs_grown) t

theorem includeDir_eq (root : Path) : includeDir root = root.within ["include"] :=
  Path.div_name (by decide)

theorem libDir_eq (root : Path) : libDir root = root.within ["lib"] := Path.div_name (by decide)

theorem manifestDir_eq (root : Path) : manifestDir root = root.within [".manifests"] :=
  Path.div_name (by decide)

/-- The way to a directory of a sysroot leads through no link to a directory. -/
theorem straight_of_missing (hseat : Seat t base B k) (hlinks : NoDirLinks t (B ++ missing) k)
    (hfree : ∀ first rest, missing = first :: rest → t.get? (B ++ [first]) = none) (name : String) :
    Straight t B k (missing ++ [name]) := by
  cases missing with
  | nil =>
    rw [List.append_nil] at hlinks
    exact hlinks.straight
  | cons first rest =>
    refine straight_of_no_link fun front target hfront hlink => ?_
    cases front with
    | nil =>
      rw [List.append_nil, hseat.dir] at hlink
      cases hlink
    | cons first' rest' =>
      obtain rfl : first' = first := (List.cons_prefix_cons.1 hfront).1
      have hnone := hfree first' rest rfl
      by_cases hrest : rest' = []
      · rw [hrest, hnone] at hlink
        cases hlink
      · have hne : t.get? (B ++ [first']) ≠ some .dir := by
          rw [hnone]
          exact nofun
        have hbelow := get?_append_eq_none hne hrest
        rw [List.append_assoc, List.singleton_append, hlink] at hbelow
        cases hbelow

/-- Making a directory of a sysroot is refused, and then changes nothing, or paves the way to it from
where the first missing one is, and gives the root its seat. -/
theorem Sited.paved (h : Sited t root R k) (hnull : hasNull root.text = false)
    (hlinks : NoDirLinks t R k) (hname : isName name = true) :
    (∃ e, Action.ensureDirs (root.within [name]) t = (.error (.system e), t)) ∨
    ∃ t' B missing, Action.ensureDirs (root.within [name]) t = (.ok (), t') ∧ R = B ++ missing ∧
      Paved B (missing ++ [name]) t t' ∧ Seat t' root R k := by
  obtain ⟨base, B, missing, rfl, rfl, hplain, hseat, hfree⟩ := h
  have hnull' : hasNull base.text = false := (Path.hasNull_within hplain).symm.trans hnull
  have hnames : Plain (missing ++ [name]) := plain_append.2 ⟨hplain, by simpa using hname⟩
  have hstraight := straight_of_missing hseat hlinks hfree name
  have hpave :
      (∃ e, Action.ensureDirs (base.within (missing ++ [name])) t = (.error (.system e), t)) ∨
      ∃ t', Action.ensureDirs (base.within (missing ++ [name])) t = (.ok (), t') ∧
        Paved B (missing ++ [name]) t t' := by
    obtain ⟨first, rest, hcons⟩ := List.exists_cons_of_ne_nil (concat_ne_nil missing name)
    rw [hcons] at hnames hstraight ⊢
    exact hseat.ensureDirs hnull' hnames hstraight
  rw [Path.within_within]
  rcases hpave with he | ⟨t', ht', hp⟩
  · exact .inl he
  · have hdir : t'.get? (B ++ missing ++ [name]) = some .dir := by
      rw [List.append_assoc]
      exact hp.dir
    exact .inr ⟨t', B, missing, ht', rfl, hp, (hseat.of_sameAround (hp.sameAround hseat.dir)).within
      hplain (get?_of_append hdir (List.cons_ne_nil _ _))⟩

/-- Making a directory of a sysroot is refused, and then changes nothing, or brings the missing ones
with it and gives the root its seat. -/
theorem Sited.ensureDirs (h : Sited t root R k) (hnull : hasNull root.text = false)
    (hlinks : NoDirLinks t R k) (hname : isName name = true) :
    (∃ e, Action.ensureDirs (root.within [name]) t = (.error (.system e), t)) ∨
    ∃ t', Action.ensureDirs (root.within [name]) t = (.ok (), t') ∧
      Seat t' root R k ∧ Created R t t' ∧
      t'.get? (R ++ [name]) = some .dir := by
  rcases h.paved hnull hlinks hname with he | ⟨t', B, missing, ht', rfl, hp, hseat⟩
  · exact .inl he
  · refine .inr ⟨t', ht', hseat, .of_paved hp, ?_⟩
    rw [List.append_assoc]
    exact hp.dir

/-- What is neither on the way to a directory of a sysroot nor that directory stays as it is when
that is made. -/
theorem Sited.ensureDirs_keeps (h : Sited t root R k) (hnull : hasNull root.text = false)
    (hlinks : NoDirLinks t R k) (hname : isName name = true)
    (hok : Action.ensureDirs (root.within [name]) t = (.ok (), t')) (hl : ¬ l <+: R ++ [name]) :
    t'.get? l = t.get? l := by
  rcases h.paved hnull hlinks hname with ⟨e, he⟩ | ⟨t₁, B, missing, ht₁, rfl, hp, -⟩
  · rw [he] at hok
    cases hok
  · rw [ht₁] at hok
    cases hok
    exact hp.get?_of_not_above (by rwa [← List.append_assoc])

/-- Once the directories of a sysroot are made, its root has its seat there. -/
theorem create_spec (h : Sited t root R k) (hok : create root t = (.ok (), t₁))
    (hlinks : NoDirLinks t₁ R k) :
    Seat t₁ root R k ∧ Created R t t₁ ∧ hasNull root.text = false ∧
      t₁.get? (R ++ [".manifests"]) = some .dir := by
  obtain ⟨ta, tb, ha, hb, hc⟩ := create_ok hok
  have hgrown : ∀ {p : Path} {t t' : Tree}, Action.ensureDirs p t = (.ok (), t') → t.Grown t' := by
    intro p t t' h
    have hg := ensureDirs_grown (p := p) (t := t)
    rwa [h] at hg
  have hnull : hasNull root.text = false := by
    rw [manifestDir_eq] at hc
    have hno := ensureDirs_of_null (p := root.within [".manifests"]) (t := tb)
    rw [Path.hasNull_within (by simp; decide), hc] at hno
    cases hn : hasNull root.text with
    | false => rfl
    | true => cases hno hn
  have hlinksb := hlinks.of_grown (hgrown hc)
  have hlinksa := hlinksb.of_grown (hgrown hb)
  have hmade : ∀ {name : String} {t t' : Tree},
      Sited t root R k → NoDirLinks t R k → isName name = true →
      Action.ensureDirs (root.within [name]) t = (.ok (), t') →
      Seat t' root R k ∧ Created R t t' ∧ t'.get? (R ++ [name]) = some .dir := by
    intro name t t' hsite hl hname ht
    rcases hsite.ensureDirs hnull hl hname with ⟨e, he⟩ | ⟨t'', ht'', hmade⟩
    · rw [he] at ht
      cases ht
    · rw [ht''] at ht
      cases ht
      exact hmade
  rw [includeDir_eq] at ha
  rw [libDir_eq] at hb
  rw [manifestDir_eq] at hc
  obtain ⟨hseata, hcreateda, -⟩ := hmade h (hlinksa.of_grown (hgrown ha)) (by decide) ha
  obtain ⟨hseatb, hcreatedb, -⟩ := hmade (sited_of_seat hseata) hlinksa (by decide) hb
  obtain ⟨hseatc, hcreatedc, hdir⟩ := hmade (sited_of_seat hseatb) hlinksb (by decide) hc
  exact ⟨hseatc, (hcreateda.trans hcreatedb).trans hcreatedc, hnull, hdir⟩

/-! ## Sysroots without links -/

/-- In a sysroot without links, making its directories leaves it where it is and adds only ones
directly in it, wherever it stops. -/
theorem create_of_noLinks (h : Sited t root R k) (hnull : hasNull root.text = false)
    (hlinks : NoLinks t R) :
    Sited (create root t).2 root R k ∧ Created R t (create root t).2 := by
  have hrefl : ∀ t : Tree, Created R t t := fun t => ⟨.refl t, fun _ => .inl rfl⟩
  have hone : ∀ {t : Tree} {name : String}, Sited t root R k → NoLinks t R → isName name = true →
      Sited (Action.ensureDirs (root.within [name]) t).2 root R k ∧
        Created R t (Action.ensureDirs (root.within [name]) t).2 := by
    intro t name hsite hl hname
    rcases hsite.ensureDirs hnull hl.noDirLinks hname with ⟨e, he⟩ | ⟨t', ht', hseat, hcreated, -⟩
    · rw [he]
      exact ⟨hsite, hrefl t⟩
    · rw [ht']
      exact ⟨sited_of_seat hseat, hcreated⟩
  have hbind : ∀ {x y : Action Unit} {t : Tree},
      (Sited (x t).2 root R k ∧ Created R t (x t).2) →
      (∀ t', Sited t' root R k → NoLinks t' R → Sited (y t').2 root R k ∧ Created R t' (y t').2) →
      NoLinks t R → Sited ((x >>= fun _ => y) t).2 root R k ∧
        Created R t ((x >>= fun _ => y) t).2 := by
    intro x y t hx hy hl
    rw [Effect.bind_apply]
    rcases hxt : x t with ⟨fault | _, t₁⟩ <;> rw [hxt] at hx
    · exact hx
    · obtain ⟨hsite, hcreated⟩ := hy t₁ hx.1 (hl.of_grown hx.2.grown)
      exact ⟨hsite, hx.2.trans hcreated⟩
  rw [create, includeDir_eq, libDir_eq, manifestDir_eq]
  refine hbind (hone h hlinks (by decide)) (fun t₁ hsite₁ hl₁ => ?_) hlinks
  exact hbind (hone hsite₁ hl₁ (by decide)) (fun t₂ hsite₂ hl₂ => hone hsite₂ hl₂ (by decide)) hl₁

/-- The names of the directories of a sysroot. -/
def sysrootDirs : List String := ["include", "lib", ".manifests"]

/-- Making the directories of a sysroot without links makes them, and nothing that is not on the way
to one of them. -/
theorem create_exact (h : Sited t root R k) (hok : create root t = (.ok (), t₁)) (hlinks : NoLinks t R) :
    (∀ name ∈ sysrootDirs, t₁.get? (R ++ [name]) = some .dir) ∧
      ∀ l, (∀ name ∈ sysrootDirs, ¬ l <+: R ++ [name]) → t₁.get? l = t.get? l := by
  have hgrown := create_grown root t
  rw [hok] at hgrown
  obtain ⟨-, -, hnull, -⟩ := create_spec h hok (hlinks.of_grown hgrown).noDirLinks
  have hone : ∀ {name : String} {t t' : Tree}, Sited t root R k → NoLinks t R →
      isName name = true → Action.ensureDirs (root.within [name]) t = (.ok (), t') →
      Sited t' root R k ∧ NoLinks t' R ∧ t.Grown t' ∧ t'.get? (R ++ [name]) = some .dir ∧
        ∀ l, ¬ l <+: R ++ [name] → t'.get? l = t.get? l := by
    intro name t t' hsite hno hname hmake
    have hg := ensureDirs_grown (p := root.within [name]) (t := t)
    rw [hmake] at hg
    rcases hsite.ensureDirs hnull hno.noDirLinks hname with ⟨e, he⟩ | ⟨t'', ht'', hseat, -, hdir⟩
    · rw [he] at hmake
      cases hmake
    · rw [ht''] at hmake
      cases hmake
      exact ⟨sited_of_seat hseat, hno.of_grown hg, hg, hdir, fun l hl =>
        hsite.ensureDirs_keeps hnull hno.noDirLinks hname ht'' hl⟩
  obtain ⟨ta, tb, ha, hb, hc⟩ := create_ok hok
  rw [includeDir_eq] at ha
  rw [libDir_eq] at hb
  rw [manifestDir_eq] at hc
  obtain ⟨hsitea, hnoa, -, hdira, hsamea⟩ := hone h hlinks (by decide) ha
  obtain ⟨hsiteb, hnob, hgrownb, hdirb, hsameb⟩ := hone hsitea hnoa (by decide) hb
  obtain ⟨-, -, hgrownc, hdirc, hsamec⟩ := hone hsiteb hnob (by decide) hc
  refine ⟨?_, fun l hl => ?_⟩
  · simp only [sysrootDirs, List.forall_mem_cons, List.not_mem_nil, false_implies, implies_true,
      and_true]
    exact ⟨hgrownc.within _ _ (hgrownb.within _ _ hdira), hgrownc.within _ _ hdirb, hdirc⟩
  · rw [hsamec l (hl _ (by simp [sysrootDirs])), hsameb l (hl _ (by simp [sysrootDirs])),
      hsamea l (hl _ (by simp [sysrootDirs]))]

/-- What is neither on the way to a sysroot without links nor in it stays as it is when its
directories are made. -/
theorem create_keeps (h : Sited t root R k) (hok : create root t = (.ok (), t₁)) (hlinks : NoLinks t R)
    (hl : ¬ l <+: R) (hR : ¬ R <+: l) : t₁.get? l = t.get? l := by
  refine (create_exact h hok hlinks).2 l fun name _ hpre => ?_
  rcases List.prefix_concat_iff.1 hpre with rfl | hpre
  · exact hR (List.prefix_append R [name])
  · exact hl hpre

/-! ## The directory for what is set aside -/

/-- Whether a name is one for what a library sets aside. -/
def IsAside (l : Library) (a : String) : Prop :=
  ∃ n, a = l.name ++ "-" ++ String.ofList (Text.hexOfWidth 8 n)

theorem isAside_freeName (t : Tree) (dir : Path) (l : Library) :
    IsAside l (freeName t dir (l.name ++ "-")) := by
  rw [freeName]
  rcases hfind : ((List.range ((t.list dir).length + 1)).map fun n =>
    l.name ++ "-" ++ String.ofList (Text.hexOfWidth 8 n)).find? (· ∉ t.list dir) with _ | a
  · exact ⟨0, rfl⟩
  · obtain ⟨n, -, hn⟩ := List.mem_map.1 (List.mem_of_find?_eq_some hfind)
    exact ⟨n, hn.symm⟩

theorem hexDigit_plain : ∀ n < 16, (Text.hexDigit n).utf8Size = 1 ∧ Text.hexDigit n ≠ '/' ∧
    Text.hexDigit n ≠ '\x00' ∧ Text.hexDigit n ≠ 'n' := by decide

/-- Hexadecimal digits are one byte each, and none is a character that matters in a name. -/
theorem hexOfWidth_plain (w n : Nat) : (String.ofList (Text.hexOfWidth w n)).utf8ByteSize = w ∧
    ∀ c ∈ Text.hexOfWidth w n, c ≠ '/' ∧ c ≠ '\x00' ∧ c ≠ 'n' := by
  induction w generalizing n with
  | zero => exact ⟨rfl, by simp [Text.hexOfWidth]⟩
  | succ w ih =>
    obtain ⟨hsize, hne⟩ := hexDigit_plain (n % 16) (Nat.mod_lt n (by decide))
    obtain ⟨hsize', hne'⟩ := ih (n / 16)
    rw [Text.hexOfWidth]
    constructor
    · rw [String.ofList_append, String.utf8ByteSize_append, hsize']
      show w + (String.singleton (Text.hexDigit (n % 16))).utf8ByteSize = w + 1
      rw [String.utf8ByteSize_singleton, hsize]
    · intro c hc
      rcases List.mem_append.1 hc with hc | hc
      · exact hne' c hc
      · rw [List.mem_singleton.1 hc]
        exact hne

theorem name_plain (l : Library) :
    l.name.utf8ByteSize ≤ 11 ∧ l.name ≠ "" ∧ l.name.toList.head? ≠ some '.' ∧
    '/' ∉ l.name.toList ∧ '\x00' ∉ l.name.toList := by
  cases l <;> decide

theorem IsAside.isName (h : IsAside library a) : isName a = true := by
  obtain ⟨n, rfl⟩ := h
  obtain ⟨hsize, -, hhead, hslash, hnull⟩ := name_plain library
  obtain ⟨hsize', hne⟩ := hexOfWidth_plain 8 n
  have hlist : (library.name ++ "-" ++ String.ofList (Text.hexOfWidth 8 n)).toList =
      library.name.toList ++ '-' :: Text.hexOfWidth 8 n := by simp
  refine isName_iff.2 ⟨⟨?_, ?_, ?_⟩, ?_, ?_, ?_⟩
  · intro heq
    have := congrArg String.toList heq
    rw [hlist] at this
    simp at this
  · intro heq
    have := congrArg List.length (congrArg String.toList heq)
    rw [hlist] at this
    simp [Text.length_hexOfWidth] at this
  · intro heq
    have := congrArg List.length (congrArg String.toList heq)
    rw [hlist] at this
    simp [Text.length_hexOfWidth] at this
  · rw [String.utf8ByteSize_append, String.utf8ByteSize_append, hsize']
    have hdash : "-".utf8ByteSize = 1 := rfl
    rw [hdash, nameLimit]
    omega
  · rw [hlist]
    simp only [List.mem_append, List.mem_cons, not_or]
    exact ⟨hslash, by decide, fun hmem => (hne '/' hmem).1 rfl⟩
  · rw [hlist]
    simp only [List.mem_append, List.mem_cons, not_or]
    exact ⟨hnull, by decide, fun hmem => (hne '\x00' hmem).2.1 rfl⟩

/-- What is set aside is in no file. -/
theorem IsAside.ne_manifest (h : IsAside library a) (l : Library) : a ≠ l.name ++ ".json" := by
  obtain ⟨n, rfl⟩ := h
  intro heq
  have hlast := congrArg (fun s : String => s.toList.getLast?) heq
  have hleft : (library.name ++ "-" ++ String.ofList (Text.hexOfWidth 8 n)).toList.getLast? =
      some (Text.hexDigit (n % 16)) := by
    simp [Text.hexOfWidth]
  have hright : (l.name ++ ".json").toList.getLast? = some 'n' := by simp
  simp only [hleft, hright, Option.some.injEq] at hlast
  exact (hexDigit_plain (n % 16) (Nat.mod_lt n (by decide))).2.2.2 hlast

theorem openAside_apply (root : Path) (l : Library) (t : Tree) :
    openAside root l t = match create root t with
      | (.error fault, t₁) => (.error fault, t₁)
      | (.ok (), t₁) =>
          match t₁.makeDir (manifestDir root / freeName t₁ (manifestDir root) (l.name ++ "-")) with
          | .error e => (.error (.ofRefusal e), t₁)
          | .ok t₂ =>
              (.ok (manifestDir root / freeName t₁ (manifestDir root) (l.name ++ "-")), t₂) := by
  rw [openAside, Effect.bind_apply]
  rcases create root t with ⟨e | _, t₁⟩
  · rfl
  · show (makeFreshDir (manifestDir root) (l.name ++ "-")) t₁ = _
    rw [makeFreshDir, Effect.bind_of_ok (Effect.get_apply t₁), Effect.bind_apply, apply_apply]
    simp only []
    generalize manifestDir root / freeName t₁ (manifestDir root) (l.name ++ "-") = p
    rcases t₁.makeDir p with e | t₂ <;> rfl

/-- Opening a directory for what is set aside adds directories, wherever it stops. -/
theorem openAside_spec (hsite : ∀ t₁, create root t = (.ok (), t₁) → Sited t root R k)
    (hlinks : ∀ t₁, create root t = (.ok (), t₁) → NoDirLinks t₁ R k) (l : Library) :
    (∃ fault t', openAside root l t = (.error fault, t') ∧ t.Grown t' ∧
      ∀ t₁, create root t = (.ok (), t₁) → t' = t₁) ∨
    ∃ t₁ t₂ a, create root t = (.ok (), t₁) ∧
      openAside root l t = (.ok (root.within (stash a)), t₂) ∧
      IsAside l a ∧ Fits root (stash a) ∧ t₁.get? (R ++ stash a) = none ∧
      Added (R ++ stash a) .dir t₁ t₂ := by
  rw [openAside_apply]
  have hgrown := create_grown root t
  rcases hcreate : create root t with ⟨fault | _, t₁⟩
  · rw [hcreate] at hgrown
    exact .inl ⟨fault, t₁, rfl, hgrown, nofun⟩
  rw [hcreate] at hgrown
  obtain ⟨hseat, -, hnull, -⟩ := create_spec (hsite t₁ hcreate) hcreate (hlinks t₁ hcreate)
  have haside := isAside_freeName t₁ (manifestDir root) l
  have hp : manifestDir root / freeName t₁ (manifestDir root) (l.name ++ "-") =
      root.within (stash (freeName t₁ (manifestDir root) (l.name ++ "-"))) := by
    rw [Path.div_name haside.isName, manifestDir_eq, Path.within_within]
    rfl
  simp only [hp]
  generalize freeName t₁ (manifestDir root) (l.name ++ "-") = a at haside ⊢
  have hplain : Plain ([".manifests"] ++ [a]) := plain_stash haside.isName
  rcases hseat.makeDir hnull hplain (hlinks t₁ hcreate).straight with
    ⟨t₂, hmake, hfree, -, hadd⟩ | ⟨reason, hmake, -⟩
  · have hmake' : t₁.makeDir (root.within (stash a)) = .ok t₂ := hmake
    refine .inr ⟨t₁, t₂, a, rfl, ?_, haside, ?_, hfree, hadd⟩
    · rw [hmake']
    · by_contra hfits
      rw [Tree.makeDir, place, placeOr_within hnull hplain,
        locate_of_not_fits (show ¬ Fits root ([".manifests"] ++ [a]) from hfits)] at hmake
      cases hmake
  · have hmake' : t₁.makeDir (root.within (stash a)) = .error _ := hmake
    rw [hmake']
    refine .inl ⟨_, t₁, rfl, hgrown, fun t₁' heq => ?_⟩
    exact congrArg Prod.snd heq

end Sysroot.Install

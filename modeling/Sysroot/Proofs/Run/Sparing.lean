import Sysroot.Proofs.Run.Repeating
import Sysroot.Proofs.Run.Separate

/-!
# What builds spare

The build of a library works in its own build directory and in the sysroot.  When it provides the
headers of another library it works in the header stage of that one as well.  So it spares what lies
outside of the sysroot and of the directory of builds, the platform file, and of the build directories
of other libraries all but their header stages (`Spares`, `Run.Built.spares`).
-/

namespace Sysroot

open Effect Sysroot.Tree Sysroot.Tree.Action Sysroot.Install

variable {s : Site} {R B : Location} {k j : Nat} {t₀ t t' t'' : Tree} {W W' : Library → Prop}
  {l d : Library} {e : Catalog.Entry} {names : List String}

/-- The places in the directory of builds that the builds of certain libraries spare: the platform
file, and the build directories of the other libraries, save for their header stages. -/
inductive Library.Spared (W : Library → Prop) : List String → Prop
  | build {d : Library} {name : String} (hd : ¬ W d) (hname : name ≠ "headers") (y : List String) :
      Spared W ((d.name ++ "-build") :: name :: y)
  | platform (y : List String) : Spared W ("cmake-modules" :: y)

/-- Whether between two trees nothing changed that the builds of certain libraries spare.  Build
directories may be made, and none of them is lost. -/
structure Spares (R B : Location) (W : Library → Prop) (t t' : Tree) : Prop where
  elsewhere : ∀ m, ¬ R <+: m → ¬ B <+: m → t'.get? m = t.get? m
  dirs : ∀ d : Library, t.get? (B ++ [d.name ++ "-build"]) = some .dir →
    t'.get? (B ++ [d.name ++ "-build"]) = some .dir
  same : ∀ names, Library.Spared W names → t'.get? (B ++ names) = t.get? (B ++ names)

theorem Library.Spared.mono (h : Library.Spared W' names) (hW : ∀ d, W d → W' d) :
    Library.Spared W names := by
  cases h with
  | build hd hname y => exact .build (fun hd' => hd (hW _ hd')) hname y
  | platform y => exact .platform y

/-- The build directory of a library does not hold the platform file. -/
theorem Library.build_ne_modules (d : Library) : d.name ++ "-build" ≠ "cmake-modules" := by
  cases d <;> decide +kernel

namespace Spares

theorem refl (R B : Location) (W : Library → Prop) (t : Tree) : Spares R B W t t :=
  ⟨fun _ _ _ => rfl, fun _ hdir => hdir, fun _ _ => rfl⟩

theorem trans (h : Spares R B W t t') (h' : Spares R B W t' t'') : Spares R B W t t'' :=
  ⟨fun m hR hB => (h'.elsewhere m hR hB).trans (h.elsewhere m hR hB),
    fun d hdir => h'.dirs d (h.dirs d hdir),
    fun names hnames => (h'.same names hnames).trans (h.same names hnames)⟩

theorem mono (h : Spares R B W t t') (hW : ∀ d, W d → W' d) : Spares R B W' t t' :=
  ⟨h.elsewhere, h.dirs, fun names hnames => h.same names (hnames.mono hW)⟩

end Spares

variable (hs : s.Apart t₀ R B k j)

include hs

/-- What happens in the sysroot leaves the directory of builds as it is. -/
theorem Tree.SameAround.get?_builds (h : SameAround R t t') (names : List String) :
    t'.get? (B ++ names) = t.get? (B ++ names) :=
  h.get? _ fun hpre => absurd hpre (not_below_of_apart hs.not_below hs.not_above)

/-- A request that is carried out changes nothing outside of the sysroot. -/
theorem Site.Requests.sameAround {request : Request} {files : List Path} (hrequest : s.Requests l request)
    (hin : ∀ l e, s.catalog.find? l = some e → e.Inward) (hground : Grounded R B t₀ t)
    (hok : request.run s.root l t = (.ok files, t')) : SameAround R t t' := by
  have hseat := hground.seat_sysroot hs
  obtain ⟨-, -, -, -, -, haround, -⟩ := (hrequest.aimed hin hs hground).filled (sited_of_seat hseat)
    hseat.null hground.links_sysroot hok
  exact haround hseat

namespace Spares

/-- What happens in the sysroot spares all that builds spare. -/
theorem of_sameAround (h : SameAround R t t') : Spares R B W t t' :=
  ⟨fun m hR _ => h.get? m fun hpre => absurd hpre hR, fun _ hdir => (h.get?_builds hs _).trans hdir,
    fun names _ => h.get?_builds hs names⟩

/-- Invocations that are rehearsed at places of a build directory spare the others, and this one too if
the places are in its header stage. -/
theorem of_invocations {is : List Invocation} {places : List String → Prop}
    (his : ∀ i ∈ is, i.At s d places) (hplaces : ∀ names, places names → names ≠ [])
    (hW : W d ∨ ∀ names, places names → names.head? = some "headers")
    (hground : Grounded R B t₀ t) (hok : is.forM (Run.rehearse l) t = (.ok (), t')) :
    Spares R B W t t' := by
  obtain ⟨⟨haround, -⟩, hchanged⟩ := (Run.works_invocations l his).of_apply hok
    (hground.seat_builds hs) hground.links_builds
  -- what is spared is not on the way to an output
  have hspared : ∀ {names names' : List String}, Library.Spared W names → places names' →
      ¬ names <+: (d.name ++ "-build") :: names' := by
    intro names names' hnames hplace hpre
    cases hnames with
    | build hd hname y =>
      obtain ⟨heq, hrest⟩ := List.cons_prefix_cons.1 hpre
      obtain rfl := Library.build_injective heq
      rcases hW with hW | hW
      · exact hd hW
      · obtain ⟨more, rfl⟩ := hrest
        exact hname (Option.some.inj (hW _ hplace))
    | platform y => exact Library.build_ne_modules d (List.cons_prefix_cons.1 hpre).1.symm
  refine ⟨fun m _ hB => haround.get? m fun hpre => absurd hpre hB, fun d' hdir => ?_,
    fun names hnames => ?_⟩
  · rcases hchanged (B ++ [d'.name ++ "-build"]) with heq | ⟨hdir', -⟩ | ⟨o, ⟨names, hplace, rfl⟩, heq⟩
    · exact heq.trans hdir
    · exact hdir'
    · exact absurd (List.cons.inj (List.append_cancel_left heq)).2.symm (hplaces names hplace)
  · rcases hchanged (B ++ names) with heq | ⟨-, y, hy, -, hway⟩ | ⟨o, ⟨names', hplace, rfl⟩, heq⟩
    · exact heq
    · have hway := (List.prefix_append_right_inj B).1 hway
      rcases hy with hy | ⟨names', hplace, hy⟩
      · have hpre := hway.trans hy
        cases hnames with
        | build => exact absurd hpre.length_le (by simp)
        | platform => exact absurd (List.cons_prefix_cons.1 hpre).1.symm (Library.build_ne_modules d)
      · exact absurd (hway.trans hy) (hspared hnames hplace)
    · exact absurd (List.append_cancel_left heq ▸ List.prefix_rfl) (hspared hnames hplace)

/-- The scratch directory of a library is prepared in its build directory. -/
theorem of_prepareScratch {σ : Type} {plan : Plan} {b b' : Bench σ} (hplan : s.Contains e plan)
    (hW : W e.library) (hground : Grounded R B t₀ b.tree)
    (hok : Run.prepareScratch s l plan b = (.ok (), b')) : Spares R B W b.tree b'.tree := by
  obtain ⟨-, hget⟩ :=
    Run.prepareScratch_ok hplan (hground.seat_builds hs) hground.links_builds hok
  have hkept : ∀ m, (∀ y, ¬ B ++ (e.library.name ++ "-build") :: y <+: m) →
      b'.tree.get? m = b.tree.get? m := fun m hno => by
    rw [hget, if_neg (show m ≠ B ++ [e.library.name ++ "-build"] from fun heq => hno [] (by rw [heq])),
      if_neg (not_or.2 ⟨hno _, fun hclear => hno [] hclear.2⟩)]
  refine ⟨fun m _ hB => hkept m fun y hpre => hB ((List.prefix_append B _).trans hpre), fun d hdir => ?_,
    fun names hnames => hkept _ fun y hpre => ?_⟩
  · by_cases hd : e.library = d
    · rw [hget, if_pos (by rw [hd])]
    · exact (hkept _ fun y hpre => hd <| Library.build_injective
        (List.cons_prefix_cons.1 ((List.prefix_append_right_inj B).1 hpre)).1).trans hdir
  · have hpre := (List.prefix_append_right_inj B).1 hpre
    cases hnames with
    | build hd =>
      obtain rfl := Library.build_injective (List.cons_prefix_cons.1 hpre).1
      exact hd hW
    | platform => exact Library.build_ne_modules _ (List.cons_prefix_cons.1 hpre).1

end Spares

end Sysroot

import Sysroot.Proofs.Install.Commuting
import Sysroot.Proofs.Run.Finishing
import Sysroot.Proofs.Run.Rebuilding

/-!
# What surrounds the builds of a run

Before its builds a run makes its directories and the platform file, and after them it writes its
report.  What a run made can be made again on the tree that the run left
(`Builder.prepareRoots_again`), which then resembles the tree as it was.  What a run that is done
wrote tells that there is room for another report (`Builder.writeReport_ok`).
-/

namespace Sysroot

open Effect Sysroot.Tree Sysroot.Tree.Action Sysroot.Install

variable {σ : Type} {b : Builder σ} {s : Site} {R B : Location} {k j : Nat} {t₀ t t' u : Tree}
  {W W' : Library → Prop} {order : List Library} {platformFile : Option Path} {root : Path}

/-! ## Directories that are there -/

/-- The directory of a seat can be made when its path is short enough. -/
theorem Tree.Seat.ensureDirs_itself (h : Seat t root R k) (hfits : Fits root []) :
    Action.ensureDirs root t = (.ok (), t) := by
  have hsize : ¬ textLimit < root.text.utf8ByteSize := by
    rw [Fits, Path.within_nil] at hfits
    omega
  have hmake : t.makeDir root = .error (.refused .alreadyExists root.text) := by
    rw [Tree.makeDir, place, Tree.placeOr, h.null]
    rcases h.locate_itself with hlong | ⟨m, n, hm, hn⟩
    · rw [Tree.locate, if_neg hsize] at hlong
      rcases locateFrom_itself h.locateFrom_root with hsame | ⟨m, target, hm, -⟩
      · rw [hsame] at hlong
        cases hlong
      · rw [hm] at hlong
        cases hlong
    · rw [hm]
      simp [Except.mapError, bind, Except.bind, hn, throw, throwThe, MonadExceptOf.throw]
  have hlocate : t.locate root = .ok R := by
    rw [Tree.locate, if_neg hsize, h.locateFrom_root]
  have hquery : t.query root isDir = .ok true := by
    rw [query_eq_ok (by simp [hlocate]), isDir, node?, hlocate]
    simp [h.dir]
  have hone : Action.ensureDir root t = (.ok (), t) := by
    rw [Action.ensureDir_apply, hmake]
    simp only [SystemError.reason?, reduceCtorEq, if_false, Option.some.injEq, hquery]
  obtain ⟨anchor, parts⟩ := root
  rw [Action.ensureDirs]
  rcases hrev : parts.reverse with _ | ⟨name, up⟩
  · obtain rfl := List.reverse_eq_nil_iff.1 hrev
    exact hone
  · have hparts : (name :: up).reverse = parts := by rw [← hrev, List.reverse_reverse]
    rw [Action.ensureDirsUp_cons_apply, hparts, hone]

/-- What a tree resembles save for some build directories it resembles save for more of them. -/
theorem Resembles.mono (h : Resembles R B W t u) (hW : ∀ d, W d → W' d) : Resembles R B W' t u :=
  ⟨h.elsewhere, h.sysroot, fun names hne hhead hnot =>
    h.builds names hne hhead fun d hd => hnot d (hW d hd), h.objects⟩

namespace Builder

/-! ## Before the builds -/

/-- When the directories of a run are made, those of the sysroot are there. -/
theorem prepareRoots_dirs (hs : (b.site none).Apart t R B k j)
    (hok : b.prepareRoots order t = (.ok platformFile, t')) :
    ∀ name ∈ sysrootDirs, t'.get? (R ++ [name]) = some .dir := by
  obtain ⟨made, hground, -, -, ⟨hdirs, -⟩, -, ⟨-, p, rfl, hwrite⟩ | ⟨-, rfl, rfl⟩⟩ := prepareRoots_ok hs hok
  · obtain ⟨-, hsame⟩ := hground.of_changedBelow hs
      ((staysBelow_writePlatformFile b).of_apply hwrite fun _ _ => trivial)
    exact fun name hname => (hsame _).trans (hdirs name hname)
  · exact hdirs

/-- The platform file is not put where a build directory is. -/
theorem works_writePlatformFile (b : Builder σ) : Works b.settings.buildRoot B j
    (· = ["cmake-modules", "Platform"]) (· = ["cmake-modules", "Platform", "WebAssembly.cmake"])
    (b.toolchain.writePlatformFile b.platformDir) := by
  rw [Toolchain.writePlatformFile, platformPath_eq, Path.parent_within]
  exact Keeps.bind (works_ensureDirs (by simp) (by decide) rfl) fun _ =>
    Keeps.bind (works_writeText (by simp) (by decide) (by rfl) _) fun _ =>
      works_of_ok fun _ _ _ h => by cases h; exact Std.Refl.refl _

/-- The platform file can be written again. -/
theorem replays_writePlatformFile (b : Builder σ) : Replays (fun m => B ++ ["cmake-modules"] <+: m)
    b.settings.buildRoot B j (b.toolchain.writePlatformFile b.platformDir) := by
  have hput : Replays (fun m => B ++ ["cmake-modules"] <+: m) b.settings.buildRoot B j (do
      Action.ensureDirs (b.settings.buildRoot.within ["cmake-modules", "Platform"])
      Action.writeText (b.settings.buildRoot.within (["cmake-modules", "Platform"] ++
        ["WebAssembly.cmake"])) b.toolchain.platformText) := by
    refine .putText (by simp) (by decide) (fun y hy hpre => ?_) _
    obtain ⟨name, rest, rfl⟩ := List.exists_cons_of_ne_nil hy
    rw [(List.cons_prefix_cons.1 hpre).1]
    exact (List.prefix_append_right_inj B).2 (List.prefix_append ["cmake-modules"] rest)
  obtain ⟨hpath, hparent⟩ := below_platformPath b
  rw [platformPath_eq, Path.parent_within] at hparent
  rw [platformPath_eq] at hpath
  rw [Toolchain.writePlatformFile, platformPath_eq, Path.parent_within]
  have := hput.bind ((staysBelow_ensureDirs hparent).bind fun _ => staysBelow_writeText hpath _) fun _ =>
    .pure (b.settings.buildRoot.within (["cmake-modules", "Platform"] ++ ["WebAssembly.cmake"]))
  rwa [bind_assoc] at this

/-- The directories of a run can be made again in a tree in which they are there, and the platform file
as it was.  Nothing changes but that file. -/
theorem prepareRoots_again {start : Tree} (hs : (b.site none).Apart t₀ R B k j)
    (hok : b.prepareRoots order t₀ = (.ok platformFile, start)) (hground : Grounded R B t₀ t)
    (hdirs : ∀ name ∈ sysrootDirs, t.get? (R ++ [name]) = some .dir)
    (hfits : Fits b.settings.buildRoot [])
    (hsame : ∀ y, t.get? (B ++ "cmake-modules" :: y) = start.get? (B ++ "cmake-modules" :: y)) :
    ∃ u, b.prepareRoots order t = (.ok platformFile, u) ∧ Grounded R B t₀ u ∧
      Resembles R B (fun _ => False) t u := by
  obtain ⟨made, hmade, -, -, ⟨-, hroom⟩, -, hlast⟩ := prepareRoots_ok hs hok
  have hseat : Seat t b.settings.buildRoot B j := hground.seat_builds hs
  have hcreate : create b.settings.sysrootDir t = (.ok (), t) :=
    create_of_dirs (hground.seat_sysroot hs) (hground.seat_sysroot hs).null hroom hdirs
  have hbuilds := hseat.ensureDirs_itself hfits
  rcases hlast with ⟨hneeds, p, rfl, hwrite⟩ | ⟨hneeds, rfl, rfl⟩
  · have hseat₀ : Seat made b.settings.buildRoot B j := hmade.seat_builds hs
    obtain ⟨-, hagain⟩ :=
      replays_writePlatformFile b made p start hseat₀ hmade.links_builds hwrite
    have hshaped : Shaped (fun m => B ++ ["cmake-modules"] <+: m) start t := .of_eq fun m hm => by
      obtain ⟨y, rfl⟩ := hm
      rw [List.append_assoc]
      exact (hsame y).symm
    obtain ⟨u, hwrite', -⟩ := hagain t t hshaped hseat hground.links_builds (.refl _ t)
    obtain ⟨⟨haround, -⟩, hchanged⟩ :=
      (works_writePlatformFile b).of_apply hwrite' hseat hground.links_builds
    obtain ⟨hground', hkept⟩ := hground.of_changedBelow hs
      ((staysBelow_writePlatformFile b).of_apply hwrite' fun _ _ => trivial)
    have hother : ∀ names, names ≠ [] → names.head? ≠ some "cmake-modules" →
        u.get? (B ++ names) = t.get? (B ++ names) := by
      intro names hne hhead
      have hway : ∀ rest, ¬ names <+: "cmake-modules" :: rest := fun rest hpre => by
        obtain ⟨name, more, rfl⟩ := List.exists_cons_of_ne_nil hne
        exact hhead (congrArg some (List.cons_prefix_cons.1 hpre).1)
      rcases hchanged (B ++ names) with heq | ⟨-, d, rfl, -, hpre⟩ | ⟨o, rfl, heq⟩
      · exact heq
      · exact absurd ((List.prefix_append_right_inj B).1 hpre) (hway _)
      · exact absurd ⟨[], by rw [List.append_cancel_left heq, List.append_nil]⟩ (hway _)
    refine ⟨u, ?_, hground', fun m _ hB => haround.get? m fun hpre => absurd hpre hB, hkept,
      fun names hne hhead _ => hother names hne hhead, fun d => (Library.ObjectsAlike.refl d B t).of_same
        fun y => hother _ (List.cons_ne_nil _ _) fun heq =>
          Library.build_ne_modules d (Option.some.inj heq)⟩
    rw [prepareRoots, onRefusal_apply, bind_of_ok hcreate, bind_of_ok hbuilds, if_pos hneeds]
    rw [show (some <$> b.toolchain.writePlatformFile b.platformDir) t = (.ok (some p), u) from
      bind_of_ok hwrite']
  · refine ⟨t, ?_, hground, fun _ _ _ => rfl, fun _ => rfl, fun _ _ _ _ => rfl, fun d => .refl d B t⟩
    rw [prepareRoots, onRefusal_apply, bind_of_ok hcreate, bind_of_ok hbuilds,
      if_neg (by simp [hneeds])]
    rfl

/-! ## After the builds -/

/-- The names of the files that a run writes to the directory of builds at its end. -/
def reports : List String := ["sysroot-digests.cbor", "report.json"]

/-- No report has the name of a build directory. -/
theorem build_not_mem_reports (d : Library) : d.name ++ "-build" ∉ reports := by
  cases d <;> decide +kernel

/-- A report that is written leaves all else as it is, and tells that there was room for it. -/
theorem writeBelow_ok {name : String} (hseat : Seat t b.settings.buildRoot B j) (hlinks : NoLinks t B)
    (hname : isName name = true) {content : List UInt8}
    (hok : t.writeFile (b.settings.buildRoot / name) content = .ok t') :
    Seat t' b.settings.buildRoot B j ∧ NoLinks t' B ∧ Fits b.settings.buildRoot [name] ∧
      t'.get? (B ++ [name]) ≠ some .dir ∧ ∀ m, m ≠ B ++ [name] → t'.get? m = t.get? m := by
  have hplain : Plain ([] ++ [name]) := List.forall_mem_singleton.2 hname
  obtain ⟨hs, hlinks'⟩ := (staysBelow_writeFile ⟨[name], List.cons_ne_nil _ _, hplain.descending,
    Path.div_name hname⟩ content).of_apply (show Action.apply (Tree.writeFile · _ content) t = (.ok (), t') by
      rw [apply_apply, hok]) (fun _ _ => trivial) hseat hlinks
  rw [Path.div_name hname] at hok
  obtain ⟨-, ⟨hfits, -⟩, -⟩ := Replays.writeFile_again (S := fun _ => True) hseat hlinks hplain trivial hok
  have hget := hseat.writeFile_ok hlinks (List.cons_ne_nil _ _) hplain.descending hok
  refine ⟨hseat.of_sameAround hs, hlinks', hfits, ?_, fun m hm => by rw [hget, if_neg fun h => hm h.1]⟩
  rw [hget, if_pos ⟨rfl, hname⟩]
  simp

/-- What is written when a run is done leaves all else as it is, and tells that there was room for it. -/
theorem writeReport_room {r : RunResult} {journal : List Event} (hseat : Seat t b.settings.buildRoot B j)
    (hlinks : NoLinks t B) (hdone : r.ok = true) (hok : b.writeReport r journal t = (.ok (), t')) :
    (∃ f, b.fingerprint t = .ok f) ∧ Fits b.settings.buildRoot ["sysroot-digests.cbor"] ∧
      (∀ name ∈ reports, t'.get? (B ++ [name]) ≠ some .dir) ∧
      ∀ m, (∀ name ∈ reports, m ≠ B ++ [name]) → t'.get? m = t.get? m := by
  obtain ⟨f, t₁, hask, hrest⟩ := bind_ok hok
  obtain rfl := (reads_ask _).eq_of_apply hask
  dsimp only at hrest
  rw [if_pos hdone] at hrest
  obtain ⟨⟨⟩, t₂, hdigests, hreport⟩ := bind_ok hrest
  have hdigests : t₁.writeFile (b.settings.buildRoot / "sysroot-digests.cbor") f.cborBytes = .ok t₂ :=
    apply_ok hdigests
  have hreport := apply_ok hreport
  obtain ⟨hseat', hlinks', hfits, hfile, hsame⟩ := writeBelow_ok hseat hlinks (by decide) hdigests
  obtain ⟨-, -, -, hfile', hsame'⟩ := writeBelow_ok hseat' hlinks' (by decide) hreport
  refine ⟨⟨f, ask_ok hask⟩, hfits, fun name hname => ?_, fun m hm => ?_⟩
  · rcases List.mem_pair.1 hname with rfl | rfl
    · rwa [hsame' _ (by simp)]
    · exact hfile'
  · rw [hsame' m (hm _ (by simp [reports])), hsame m (hm _ (by simp [reports]))]

end Builder

end Sysroot

import Sysroot.Proofs.Fingerprint.Installed
import Sysroot.Proofs.Run.Escapes
import Sysroot.Proofs.Run.OnlyInstalls
import Sysroot.Proofs.Run.Turns

/-!
# Runs that go through

The report of a run can be written when the sysroot has a fingerprint and nothing is in the way
(`Builder.writeReport_of`).  A run is done when the libraries of its order can be built in turn on what its directories leave, and
its report can be written then (`Builder.run_of_inTurn`).
-/

namespace Sysroot.Builder

open Effect Sysroot.Tree Sysroot.Tree.Action

variable {σ : Type} {b : Builder σ} {s : Site} {order : List Library} {bench last start : Bench σ}
  {platformFile : Option Path} {t : Tree} {B : Location} {j : Nat}

/-- A file can be written in the directory of builds when its path is short enough and no directory is
in its place. -/
theorem writeBelow (hseat : Seat t b.settings.buildRoot B j) (hlinks : NoLinks t B) {name : String}
    (hname : isName name = true) (hfits : Fits b.settings.buildRoot [name])
    (hfree : t.get? (B ++ [name]) ≠ some .dir) (content : List UInt8) :
    ∃ t', t.writeFile (b.settings.buildRoot / name) content = .ok t' ∧
      Seat t' b.settings.buildRoot B j ∧ NoLinks t' B ∧
      ∀ m, m ≠ B ++ [name] → t'.get? m = t.get? m := by
  have hplain : Plain ([] ++ [name]) := List.forall_mem_singleton.2 hname
  have hdir : t.get? (B ++ []) = some .dir := by rw [List.append_nil, hseat.dir]
  rw [Path.div_name hname]
  rcases hseat.writeFile hseat.null hplain hfits hdir (fun target => hlinks _ target) content with
    ⟨hno, -⟩ | ⟨t', hok, hadded⟩
  · exact absurd hno hfree
  · rw [List.nil_append] at hok hadded
    obtain ⟨hs, hlinks'⟩ := (staysBelow_writeFile ⟨[name], List.cons_ne_nil _ _, hplain.descending,
      rfl⟩ content).of_apply (show Action.apply (Tree.writeFile · _ content) t = (.ok (), t') by
        rw [apply_apply, hok]) (fun _ _ => trivial) hseat hlinks
    exact ⟨t', hok, hseat.of_sameAround hs, hlinks', fun m hm => by rw [hadded.get?, if_neg hm]⟩

/-- A report can be written when the sysroot has a fingerprint and no directory is in the way. -/
theorem writeReport_of {f : Fingerprint} (hf : b.fingerprint t = .ok f)
    (hseat : Seat t b.settings.buildRoot B j) (hlinks : NoLinks t B)
    (hfits : Fits b.settings.buildRoot ["sysroot-digests.cbor"])
    (hdigests : t.get? (B ++ ["sysroot-digests.cbor"]) ≠ some .dir)
    (hreport : t.get? (B ++ ["report.json"]) ≠ some .dir) (r : RunResult) (journal : List Event) :
    ∃ t', b.writeReport r journal t = (.ok (), t') := by
  have hfits' : Fits b.settings.buildRoot ["report.json"] :=
    hfits.mono (List.cons_ne_nil _ _) (.cons (by decide +kernel) .nil)
  have hask : Action.ask b.fingerprint t = (.ok f, t) := by rw [ask_apply, hf]
  rw [writeReport, bind_of_ok hask]
  split
  · obtain ⟨t₁, hwrite, hseat₁, hlinks₁, hsame⟩ := writeBelow hseat hlinks (by decide) hfits hdigests
      f.cborBytes
    obtain ⟨t₂, hreported, -⟩ := writeBelow hseat₁ hlinks₁ (by decide) hfits'
      (by rwa [hsame _ (by simp)]) (Text.Utf8.bytesOf ((b.report r f journal).indentedText ++ "\n"))
    have hcbor : f.writeCbor b.fingerprintPath t = (.ok (), t₁) := by
      rw [Fingerprint.writeCbor, apply_apply, fingerprintPath, hwrite]
    refine ⟨t₂, (bind_of_ok hcbor).trans ?_⟩
    show writeText b.reportPath _ t₁ = _
    rw [writeText, apply_apply, reportPath, hreported]
  · obtain ⟨t₂, hreported, -⟩ := writeBelow hseat hlinks (by decide) hfits' hreport
      (Text.Utf8.bytesOf ((b.report r f journal).indentedText ++ "\n"))
    refine ⟨t₂, ?_⟩
    show writeText b.reportPath _ t = _
    rw [writeText, apply_apply, reportPath, hreported]

/-- A loop whose libraries can be built in turn builds all of them. -/
theorem buildEach_of_inTurn (hcat : s.catalog = b.catalog)
    (hentries : ∀ l ∈ order, ∃ e, b.catalog.find? l = some e) (hnodup : order.Nodup)
    (hfirst : Catalog.PrerequisitesFirst b.catalog order order) {waiting built : List Library}
    {es : List Event} {outcomes : OrderedMap Library Outcome} (hafter : start.After es bench)
    (hacc : Account b.catalog order es outcomes built [] waiting)
    (hturns : b.InTurn s waiting bench last) (hgoing : last.cancelled = false) :
    ∃ es' outcomes' built', b.buildEach s order waiting outcomes bench = (.ok outcomes', last) ∧
      Account b.catalog order es' outcomes' built' [] [] := by
  induction waiting generalizing built es bench outcomes with
  | nil =>
    cases hturns
    exact ⟨es, outcomes, built, buildEach_of_not_ready hgoing rfl, hacc⟩
  | cons l rest ih =>
    obtain _ | ⟨hcancelled, hbuild, hrest⟩ := hturns
    rename_i next files
    obtain ⟨e, he⟩ := hentries l (hacc.split ▸ by simp)
    have hentry : s.entry l = .ok e := by
      rw [Site.entry, hcat, Catalog.entry, he]
      rfl
    have hattempt := Run.attempt_of_ok hbuild
    obtain ⟨es', hafter', honly, hends⟩ := Run.attempt_spec hentry hattempt
    rcases hends with ⟨files', heq, hes'⟩ | ⟨cause, way, going, after, hno, -⟩
    · cases heq
      rw [buildEach_of_find? hcancelled (find?_isReady hfirst hafter hacc), bind_of_ok hattempt,
        List.erase_cons_head]
      exact ih (hafter.trans hafter') (hacc.succeed hnodup hfirst honly hes' files) hrest
    · cases hno

/-- A run whose libraries can be built in turn is done when its report can be written. -/
theorem run_of_inTurn {request : Option (List Library)}
    (hresolve : b.resolve request = .ok order) (hvalidate : b.validate order = .ok ())
    (hroots : b.prepareRoots order bench.tree = (.ok platformFile, t))
    (hturns : b.InTurn (b.site platformFile) order (b.prepared order bench t) last)
    (hgoing : last.cancelled = false)
    (hreport : ∀ r journal, ∃ t', b.writeReport r journal last.tree = (.ok (), t')) :
    ∃ result bench', b.run request bench = (.ok result, bench') ∧ result.state = .done ∧
      result.order = order ∧ ∃ r journal, b.writeReport r journal last.tree = (.ok (), bench'.tree) := by
  obtain ⟨hnodup, hentries, hfirst⟩ := resolve_spec hresolve
  have hroots' : b.prepareRoots order ((opened order bench).note (b.opening order)).tree =
      (.ok platformFile, t) := hroots
  have hafter : (opened order bench).After [b.opening order] (b.prepared order bench t) :=
    (Bench.After.note _ rfl).trans (Work.after_of_onTree (x := b.prepareRoots order) (by
      rw [Work.onTree, hroots']
      rfl))
  obtain ⟨es, outcomes, built, hloop, hacc⟩ := buildEach_of_inTurn rfl hentries hnodup hfirst hafter
    (account_opening b order) hturns hgoing
  have hrun := run_of_prepared hresolve hvalidate hroots
  rw [hloop] at hrun
  dsimp only at hrun
  obtain ⟨t', hwritten⟩ := hreport (resultOf order outcomes last)
    (last.note (.finished (resultOf order outcomes last).state
      ((resultOf order outcomes last).failure?.map Prod.fst))).journal
  rw [show (last.note _).tree = last.tree from rfl, hwritten] at hrun
  refine ⟨_, _, hrun, ?_, rfl, _, _, hwritten⟩
  show endState last outcomes = .done
  rw [endState, if_neg (by simp [hgoing]), if_pos ((all_ok_iff hacc).2 rfl)]

/-! ## Runs of one library -/

/-- The build of a library on its own, once the directories of a run are made. -/
def buildAlone (b : Builder Rehearsal.State) (l : Library) (t : Tree) :
    Except Fault (List Path) × Bench Rehearsal.State :=
  Run.build b.runner (b.site none) l (b.prepared [l] { tree := t, memory := {} } (b.prepareRoots [l] t).2)

/-- Whether a build went well with the sysroot in one directory and the builds in another one, without
links and long paths in the tree that it leaves. -/
def WentWell (x : Except Fault (List Path) × Bench Rehearsal.State) : Bool :=
  x.1.toOption.isSome && !x.2.cancelled &&
    [["s"], ["s", "include"], ["s", "lib"], ["build"]].all (fun l => x.2.tree.get? l = some .dir) &&
    [["build", "report.json"], ["build", "sysroot-digests.cbor"]].all
      (fun l => x.2.tree.get? l = none) &&
    x.2.tree.entries.all fun p => (p.2 matches .file .. | .dir) &&
      (Path.mk .root p.1).text.utf8ByteSize ≤ textLimit

/-- A build that went well makes a run that is done, and leaves the sysroot that the run leaves. -/
theorem run_of_wentWell {b : Builder Rehearsal.State} {l : Library} {t : Tree}
    (hsysroot : b.settings.sysrootDir = ⟨.root, ["s"]⟩) (hbuilds : b.settings.buildRoot = ⟨.root, ["build"]⟩)
    (hresolve : b.resolve (some [l]) = .ok [l]) (hvalidate : b.validate [l] = .ok ())
    (hroots : (b.prepareRoots [l] t).1.toOption = some none) (hwell : WentWell (b.buildAlone l t) = true) :
    ∃ result bench', b.run (some [l]) { tree := t, memory := {} } = (.ok result, bench') ∧
      result.state = .done ∧ result.order = [l] ∧
      ∀ y, bench'.tree.get? (["s"] ++ y) = (b.buildAlone l t).2.tree.get? (["s"] ++ y) := by
  simp only [WentWell, Bool.and_eq_true, Bool.not_eq_true', List.all_eq_true, decide_eq_true_iff] at hwell
  obtain ⟨⟨⟨⟨hok, hgoing⟩, hdirs⟩, hfree⟩, hentries⟩ := hwell
  obtain ⟨files, hfiles⟩ := Option.isSome_iff_exists.1 hok
  generalize hlast : (b.buildAlone l t).2 = last at *
  have hbuild : b.buildAlone l t = (.ok files, last) := hlast ▸ eq_of_toOption hfiles
  have hlinks : NoLinks last.tree [] := noLinks_of_entries
    (List.all_eq_true.2 fun p hp => (hentries p hp).1)
  have hseat : ∀ name, isName name = true → Fits ⟨.root, []⟩ [name] → last.tree.get? [name] = some .dir →
      Seat last.tree ⟨.root, [name]⟩ [name] linkBudget := fun name hname hfits hdir =>
    (seat_root last.tree).within (plain_cons.2 ⟨hname, plain_nil⟩) hdir
  have hseatR := hseat "s" (by decide) (by decide +kernel) (hdirs _ (by simp))
  have hseatB := hseat "build" (by decide) (by decide +kernel) (hdirs _ (by simp))
  obtain ⟨f, hf⟩ := Fingerprint.exists_ofTree hseatR (hlinks.within ["s"]) (fun name hname => by
      fin_cases hname <;> exact hdirs _ (by simp))
    (fun y n hn => (hentries _ ((get?_eq_some_iff (List.cons_ne_nil _ _)).1 hn)).2)
    b.toolchain.target
  rw [← hsysroot] at hf
  rw [← hbuilds] at hseatB
  have hreport : ∀ r journal, ∃ t', b.writeReport r journal last.tree = (.ok (), t') :=
    writeReport_of hf hseatB (hlinks.within ["build"]) (by rw [hbuilds]; decide +kernel)
      (by rw [hfree _ (by simp)]; simp) (by rw [hfree _ (by simp)]; simp)
  have hturns : b.InTurn (b.site none) [l]
      (b.prepared [l] { tree := t, memory := {} } (b.prepareRoots [l] t).2)
      last := .cons rfl hbuild (.nil last)
  have hprepared := eq_of_toOption hroots
  have hends : ∃ result bench', b.run (some [l]) { tree := t, memory := {} } =
      (.ok result, bench') ∧ result.state = .done ∧ result.order = [l] ∧
      ∃ r journal, b.writeReport r journal last.tree = (.ok (), bench'.tree) :=
    run_of_inTurn hresolve hvalidate hprepared hturns hgoing hreport
  obtain ⟨result, bench', hrun, hdone, horder, r, journal, hwritten⟩ := hends
  refine ⟨result, bench', hrun, hdone, horder, fun y => ?_⟩
  obtain ⟨hs, -⟩ := (staysBelow_writeReport b r journal).of_apply hwritten
    (fun _ _ => trivial) hseatB (hlinks.within ["build"])
  exact hs.get? _ fun hpre => by simp at hpre

end Sysroot.Builder

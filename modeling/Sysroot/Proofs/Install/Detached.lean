import Sysroot.Proofs.Install.Agreement
import Sysroot.Proofs.Install.Outcome

/-!
# Requests that do not depend on a sysroot

An installation changes a tree in the sysroot and, by new directories, on the way to it
(`ChangedAt`).  A request from elsewhere (`Request.Detached`) finds the same after such a change: it
sends the same to the same places (`Request.Detached.sends_iff`), and asks for the same mapping
(`Request.Detached.mem_mapping_iff`).
-/

namespace Sysroot.Install

open Sysroot.Tree Sysroot.Tree.Action

variable {t t' : Tree} {root dir source : Path} {R : Location} {l l' : Library} {r : Request}
  {m : OrderedMap String Path} {place : String} {x : List String} {n : Node}

/-! ## Changes in a sysroot -/

/-- Whether trees differ below a location at most, and by new directories on the way to it. -/
structure ChangedAt (R : Location) (t t' : Tree) : Prop extends GrownAround R t t' where
  apart : ∀ l, ¬ l <+: R → ¬ R <+: l → t'.get? l = t.get? l

theorem GrownAround.trans {t'' : Tree} (h : GrownAround R t t') (h' : GrownAround R t' t'') :
    GrownAround R t t'' where
  home := h'.home.trans h.home
  get? l hl := by
    rcases h'.get? l hl with heq' | ⟨hnone', hdir'⟩
    · rw [heq']
      exact h.get? l hl
    · rcases h.get? l hl with heq | ⟨-, hdir⟩
      · exact .inr ⟨heq ▸ hnone', hdir'⟩
      · rw [hdir] at hnone'
        cases hnone'

/-! ## Requests from elsewhere -/

/-- What a request expects to be there. -/
def Request.expected : Request → List Path
  | .stage s => s.expected
  | .headers .. => []

theorem headerMapping_of_same {pairs : List (String × Path)}
    (hdir : ∀ there, t.surveyed dir = .ok there → t'.surveyed dir = .ok there)
    (hpairs : headerMapping l dir place t = (.ok pairs, t)) :
    ∃ pairs', headerMapping l dir place t' = (.ok pairs', t') := by
  rw [headerMapping_apply] at hpairs ⊢
  rcases hsurveyed : t.surveyed dir with e | _ | _
  · rw [hsurveyed] at hpairs
    cases hpairs
  · rw [hsurveyed] at hpairs
    cases hpairs
  · rw [hdir _ hsurveyed]
    exact ⟨_, rfl⟩

/-- Where the same questions have the same answers, a request that asks for a mapping does so still. -/
theorem Request.mapping_of_same
    (hdirs : ∀ dir ∈ r.dirs, ∀ there, t.surveyed dir = .ok there → t'.surveyed dir = .ok there)
    (hanswers : ∀ p ∈ r.expected, t'.query p Tree.occupies = t.query p Tree.occupies)
    (hm : r.mapping l t = (.ok m, t)) : ∃ m', r.mapping l t' = (.ok m', t') := by
  cases r with
  | headers dir place =>
    obtain ⟨pairs, t₁, hpairs, hm⟩ := Effect.bind_ok hm
    obtain rfl := (reads_headerMapping l dir place).eq_of_apply hpairs
    obtain ⟨pairs', hpairs'⟩ := headerMapping_of_same (hdirs dir (List.mem_singleton_self dir)) hpairs
    exact ⟨.ofList pairs', by rw [Request.mapping, Effect.bind_of_ok hpairs']; rfl⟩
  | stage s =>
    obtain ⟨hexpected, headers, staged, hheaders, hstaged, -⟩ := mapping_stage hm
    have habsent : s.expected.filterM (fun p => not <$> ask (Tree.query · p Tree.occupies)) t' =
        (.ok [], t') := filterM_of_false fun p hp => by
      have hask : ask (Tree.query · p Tree.occupies) t' = (.ok true, t') := by
        rw [ask_apply, hanswers p hp, hexpected p hp]
      show (ask (Tree.query · p Tree.occupies) >>= fun b => pure (not b) : Action Bool) t' = _
      rw [Effect.bind_of_ok hask]
      rfl
    obtain ⟨headers', hheaders'⟩ : ∃ headers', extraMapping l s.headers t' = (.ok headers', t') := by
      rcases hextra : s.headers with _ | ⟨dir, place⟩
      · exact ⟨[], rfl⟩
      · rw [hextra] at hheaders
        exact headerMapping_of_same (hdirs dir (List.mem_append_left _ (by simp [hextra]))) hheaders
    obtain ⟨staged', hstaged'⟩ :
        ∃ staged', s.sections.mapM (sectionMapping s.stage) t' = (.ok staged', t') := by
      refine mapM_of_ok fun name hname => ?_
      obtain ⟨part, -, hpart⟩ := Reads.mem_of_mapM (reads_sectionMapping s.stage) hstaged hname
      have hdir := hdirs _ (List.mem_append_right _ (List.mem_map.2 ⟨name, hname, rfl⟩))
      rw [sectionMapping_apply] at hpart ⊢
      rcases hsurveyed : t.surveyed (s.stage / name) with e | _ | _
      · rw [hsurveyed] at hpart
        cases hpart
      · rw [hdir _ hsurveyed]
        exact ⟨_, rfl⟩
      · rw [hdir _ hsurveyed]
        exact ⟨_, rfl⟩
    have hstage : stageMapping l s t' = (.ok (headers' ++ staged'.flatten), t') := by
      rw [stageMapping, Effect.bind_of_ok hheaders', Effect.bind_of_ok hstaged']
      rfl
    refine ⟨.ofList (headers' ++ staged'.flatten), ?_⟩
    rw [Request.mapping, Effect.bind_of_ok habsent]
    simp only [List.map_nil, ne_eq, not_true_eq_false, if_false]
    rw [Effect.bind_of_ok hstage]
    rfl

/-- Whether a request takes what it installs from outside of a sysroot, and finds the same
directories, or none, and what it expects, whatever is in the sysroot. -/
structure Request.Detached (r : Request) (t : Tree) (R : Location) : Prop extends r.Aimed t R where
  missing : ∀ dir ∈ r.dirs, ∀ e, t.locate dir = .error e → ∀ t', ChangedAt R t t' →
    t'.locate dir = .error e
  answers : ∀ p ∈ r.expected, ∀ t', ChangedAt R t t' →
    t'.query p Tree.occupies = t.query p Tree.occupies

/-- What a path from elsewhere is asked for is the same whatever is in the sysroot. -/
theorem Elsewhere.query_occupies {D : Location} (h : Elsewhere t R p D) (hchanged : ChangedAt R t t') :
    t'.query p Tree.occupies = t.query p Tree.occupies := by
  have hhere : ∀ aim, t.locate p aim = .ok D := fun aim => h.locate (.of_grown (.refl t) (.refl R t))
  have hthere : ∀ aim, t'.locate p aim = .ok D := fun aim => h.locate hchanged.toGrownAround
  have hsame : t'.get? D = t.get? D := hchanged.apart D h.around h.inside
  have hoccupies : t'.occupies p = t.occupies p := by
    rw [occupies, occupies, holds, holds, isLink, isLink, node?, node?, nodeItself?, nodeItself?,
      hhere, hthere, hhere, hthere]
    simp only [hsame]
  rw [query_eq_ok (by simp [hthere]), query_eq_ok (by simp [hhere]), hoccupies]

/-- A request whose directories and expected files are spelled out and lie elsewhere does not depend on
the sysroot. -/
theorem Request.detached_of_elsewhere (hin : r.Inward) (h : ∀ p ∈ r.dirs ++ r.expected, ∃ D, Elsewhere t R p D) :
    r.Detached t R where
  inward := hin
  outside dir hdir :=
    have ⟨_, hD⟩ := h dir (List.mem_append_left _ hdir)
    hD.outside
  missing dir hdir e herror := by
    obtain ⟨D, hD⟩ := h dir (List.mem_append_left _ hdir)
    rw [hD.locate (.of_grown (.refl t) (.refl R t))] at herror
    cases herror
  answers p hp _ hchanged :=
    have ⟨_, hD⟩ := h p (List.mem_append_right _ hp)
    hD.query_occupies hchanged

namespace Request.Detached

variable (h : r.Detached t R) (hchanged : ChangedAt R t t')

include h hchanged

theorem locate_eq (hdir : dir ∈ r.dirs) : t'.locate dir = t.locate dir := by
  rcases hlocate : t.locate dir with e | D
  · exact h.missing dir hdir e hlocate t' hchanged
  · exact (h.outside dir hdir D hlocate).2.2 t' hchanged.toGrownAround

/-- Below a directory of the request there is the same. -/
theorem get?_eq (hdir : dir ∈ r.dirs) {D : Location} (hlocate : t.locate dir = .ok D)
    (p : List String) : t'.get? (D ++ p) = t.get? (D ++ p) := by
  obtain ⟨⟨hin, haround⟩, -, -⟩ := h.outside dir hdir D hlocate
  exact hchanged.apart _ (fun hpre => haround ((List.prefix_append D p).trans hpre)) fun hpre =>
    (List.prefix_or_prefix_of_prefix hpre (List.prefix_append D p)).elim hin haround

theorem beneath_iff (hdir : dir ∈ r.dirs) : Beneath t' dir p n ↔ Beneath t dir p n := by
  rw [Beneath, Beneath, h.locate_eq hchanged hdir]
  refine exists_congr fun D => and_congr_right fun hlocate => ?_
  rw [h.get?_eq hchanged hdir hlocate]

/-- Below its directories the request lists the same. -/
theorem sameUnder (hdir : dir ∈ r.dirs) : SameUnder dir t t' := by
  have hlisted : ∀ source, source ∈ t.filesUnder dir ↔ source ∈ t'.filesUnder dir := by
    have hiff : ∀ t : Tree, ∀ source, source ∈ t.filesUnder dir ↔
        ∃ p n, source = dir.within p ∧ Beneath t dir p n := by
      intro t source
      constructor
      · intro hsource
        obtain ⟨D, p, n, hlocate, hp, rfl, hn, hne⟩ := exists_of_mem_filesUnder hsource
        exact ⟨p, n, rfl, D, hlocate, hp, hn, hne⟩
      · rintro ⟨p, n, rfl, hp⟩
        exact exists_beneath_iff.1 ⟨n, hp⟩
    intro source
    rw [hiff, hiff]
    simp only [h.beneath_iff hchanged hdir]
  refine fun source => ⟨hlisted source, fun hsource => ?_⟩
  obtain ⟨D, p, n, hlocate, hp, rfl, hn, -⟩ := exists_of_mem_filesUnder hsource
  by_cases hfits : Fits dir p
  · obtain ⟨hn', hthere⟩ := (h.outside dir hdir).locate_within hlocate hp hn hchanged.toGrownAround .target
    obtain ⟨-, hhere⟩ := (h.outside dir hdir).locate_within hlocate hp hn
      (.of_grown (.refl t) (.refl R t)) .target
    rw [node?, node?, hhere hfits, hthere hfits]
    simp only [hn, hn']
  · rw [node?, node?, locate_of_not_fits hfits, locate_of_not_fits hfits]

theorem gives_iff (hstandard : r.Standard) : r.Gives t' x source ↔ r.Gives t x source :=
  (Request.gives_iff hstandard fun _ hdir => h.sameUnder hchanged hdir).symm

/-- The request sends the same to the same places. -/
theorem sends_iff (hstandard : r.Standard) : r.Sends t' x n ↔ r.Sends t x n := by
  have hheaders : ∀ {dir place}, (dir, place) ∈ r.headed →
      (HeadersSend t' dir place x n ↔ HeadersSend t dir place x n) := fun hin => by
    simp only [HeadersSend, h.beneath_iff hchanged (mem_dirs_of_headed hin)]
  cases r with
  | headers dir place => exact hheaders (List.mem_singleton_self _)
  | stage s =>
    have hstaged : ∀ n, StageSends t' s.stage x n ↔ StageSends t s.stage x n := fun n => by
      refine exists_congr fun name => and_congr_right fun hname => exists_congr fun p =>
        and_congr_right fun _ => h.beneath_iff hchanged (List.mem_append_right _ ?_)
      exact List.mem_map.2 ⟨name, (show s.sections = standardSections from hstandard) ▸ hname, rfl⟩
    simp only [Sends, hstaged]
    refine or_congr_right (and_congr_right fun _ => exists₂_congr fun dir place =>
      and_congr_right fun heq => hheaders ?_)
    exact Option.mem_toList.2 (Option.mem_def.2 heq)

/-- The request takes what it installs from outside of the sysroot still. -/
theorem aimed : r.Aimed t' R where
  inward := h.inward
  outside dir hdir D hlocate := by
    rw [h.locate_eq hchanged hdir] at hlocate
    obtain ⟨hapart, hlinks, hsame⟩ := h.outside dir hdir D hlocate
    refine ⟨hapart, fun y target => ?_, fun t'' hgrown =>
      hsame t'' (hchanged.toGrownAround.trans hgrown)⟩
    rw [h.get?_eq hchanged hdir hlocate]
    exact hlinks y target

/-- The directories of the request can be walked still, if they could. -/
theorem surveyed_eq_ok_iff {there : Bool} (hdir : dir ∈ r.dirs) :
    t'.surveyed dir = .ok there ↔ t.surveyed dir = .ok there := by
  have hlocate := h.locate_eq hchanged hdir
  constructor
  · refine surveyed_of_same hlocate.symm fun D y hD => ?_
    exact (h.get?_eq hchanged hdir (hlocate.symm.trans hD) y).symm
  · exact surveyed_of_same hlocate fun D y hD => h.get?_eq hchanged hdir hD y

/-- The request asks for the same mapping, up to the order in which its entries are found. -/
theorem mem_mapping_iff {m' : OrderedMap String Path} (hstandard : r.Standard)
    (hm : r.mapping l t = (.ok m, t)) (hm' : r.mapping l' t' = (.ok m', t')) (item : String × Path) :
    item ∈ m'.pairs ↔ item ∈ m.pairs := by
  rw [Request.mem_mapping h.inward hstandard hm', Request.mem_mapping h.inward hstandard hm]
  simp only [h.gives_iff hchanged hstandard]

/-- The request asks for a mapping after the change. -/
theorem mapping_after (hm : r.mapping l t = (.ok m, t)) : ∃ m', r.mapping l t' = (.ok m', t') :=
  mapping_of_same (fun _ hdir _ => (h.surveyed_eq_ok_iff hchanged hdir).2)
    (fun p hp => h.answers p hp t' hchanged) hm

/-- The request asked for a mapping before the change. -/
theorem mapping_before (hm : r.mapping l t' = (.ok m, t')) : ∃ m', r.mapping l t = (.ok m', t) :=
  mapping_of_same (fun _ hdir _ => (h.surveyed_eq_ok_iff hchanged hdir).1)
    (fun p hp => (h.answers p hp t' hchanged).symm) hm

end Request.Detached

end Sysroot.Install

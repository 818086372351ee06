import Sysroot.Proofs.Install.Agreement
import Sysroot.Proofs.Install.Outcome
import Sysroot.Proofs.Plan.Again
import Sysroot.Proofs.Run.Grounds

/-!
# The sources of a run

What a run does is seen in its sysroot and in its directory of builds.  When the sources lie apart from
both, in a directory without links, and the catalog names only what is below that directory, they are
the same whenever they are read (`Site.Sourced.steady`).
-/

namespace Sysroot

open Sysroot.Tree Sysroot.Install

variable {s : Site} {t t' u u' : Tree} {R B L : Location} {base : Path} {k : Nat} {l : Library}
  {e : Catalog.Entry} {directory : String}

/-- Whether the sources of a site are below a directory that lies apart from the sysroot and from the
directory of builds, without links, whatever happens in these two. -/
structure Site.Sourced (s : Site) (R B L : Location) (t : Tree) : Prop where
  lies : ∀ u, Beside R B t u → ∀ aim, u.locate s.settings.sourcesDir aim = .ok L
  dir : t.get? L = some .dir
  links : NoLinks t L
  beside_sysroot : ¬ R <+: L ∧ ¬ L <+: R
  beside_builds : ¬ B <+: L ∧ ¬ L <+: B
  downward : ∀ l e, s.catalog.find? l = some e → e.Downward

/-- Whether what a site reads of its sources is the same in trees that differ in the sysroot and in the
directory of builds only. -/
structure Site.Steady (s : Site) (R B : Location) (t : Tree) : Prop where
  answers : ∀ u u', Beside R B t u → Beside R B t u' →
    (∀ m, ¬ R <+: m → ¬ B <+: m → u'.get? m = u.get? m) →
    ∀ l e, s.catalog.find? l = some e → s.SameSourceAnswers e u u'
  headers : ∀ u u', Beside R B t u → Beside R B t u' →
    (∀ m, ¬ R <+: m → ¬ B <+: m → u'.get? m = u.get? m) →
    ∀ l e directory, s.catalog.find? l = some e → e.publicHeaders = some directory →
      SameUnder (s.sourceDir e / directory) u u'
  surveys : ∀ u u', Beside R B t u → Beside R B t u' →
    (∀ m, ¬ R <+: m → ¬ B <+: m → u'.get? m = u.get? m) →
    ∀ l e directory, s.catalog.find? l = some e → e.publicHeaders = some directory →
      ∀ there, u.surveyed (s.sourceDir e / directory) = .ok there →
        u'.surveyed (s.sourceDir e / directory) = .ok there

/-- Trees that are alike below a directory have the same files there. -/
theorem Tree.Alike.sameUnder (h : Alike base L t t') : SameUnder base t t' := by
  intro p
  rw [h.filesUnder]
  refine ⟨Iff.rfl, fun hp => ?_⟩
  obtain ⟨D, y, n, -, -, rfl, hn, -⟩ := exists_of_mem_filesUnder hp
  have hplain : Plain y := plain_of_get? hn
  exact (h.within hplain.descending).node?.symm

/-- What is below a directory that lies apart from the sysroot and from the directory of builds stays
as it is, whatever happens in these two. -/
theorem Tree.Beside.get?_apart (h : Beside R B t u) (hR : ¬ R <+: L ∧ ¬ L <+: R)
    (hB : ¬ B <+: L ∧ ¬ L <+: B) (y : List String) :
    u.get? (L ++ y) = t.get? (L ++ y) ∨ t.get? (L ++ y) = none ∧ u.get? (L ++ y) = some .dir :=
  h.get? (L ++ y) (fun hpre => absurd hpre (not_below_of_apart hR.2 hR.1))
    fun hpre => absurd hpre (not_below_of_apart hB.2 hB.1)

namespace Site.Sourced

/-- A path of names below a seat that stays where it is leads to a directory of sources when this is
there, without links and apart from the sysroot and from the directory of builds. -/
theorem of_plain {front : List String} {name : String}
    (hbase : ∀ u, Beside R B t u → Seat u base L k)
    (hsources : s.settings.sourcesDir = base.within (front ++ [name]))
    (hplain : Plain (front ++ [name])) (hfits : Fits base (front ++ [name]))
    (hdir : t.get? (L ++ (front ++ [name])) = some .dir) (hlinks : NoLinks t (L ++ (front ++ [name])))
    (hR : ¬ R <+: L ++ (front ++ [name]) ∧ ¬ L ++ (front ++ [name]) <+: R)
    (hB : ¬ B <+: L ++ (front ++ [name]) ∧ ¬ L ++ (front ++ [name]) <+: B)
    (hdown : ∀ l e, s.catalog.find? l = some e → e.Downward) :
    s.Sourced R B (L ++ (front ++ [name])) t := by
  refine ⟨fun u hu aim => ?_, hdir, hlinks, hR, hB, hdown⟩
  have hthere : u.get? (L ++ (front ++ [name])) = some .dir := by
    have := hu.get?_apart hR hB []
    rw [List.append_nil, hdir] at this
    exact this.resolve_right fun h => nomatch h.1
  have hparent : u.get? (L ++ front) = some .dir := by
    rw [← List.append_assoc] at hthere
    exact get?_of_append hthere (List.cons_ne_nil _ _)
  rw [hsources, (hbase u hu).locate (concat_ne_nil front name) hplain hfits]
  exact locateFrom_concat hplain hparent (.inr fun target => by rw [hthere]; exact nofun)

variable (h : s.Sourced R B L t)

include h

/-- Trees that differ in the sysroot and in the directory of builds only are alike below the sources. -/
theorem alike (hu : Beside R B t u) (hu' : Beside R B t u')
    (hsame : ∀ m, ¬ R <+: m → ¬ B <+: m → u'.get? m = u.get? m) :
    Alike s.settings.sourcesDir L u u' := by
  have hthere := hu.get?_apart h.beside_sysroot h.beside_builds
  have hdir : u.get? L = some .dir := by
    have := hthere []
    rw [List.append_nil, h.dir] at this
    exact this.resolve_right fun h => nomatch h.1
  refine .of_locate (h.lies u hu) (h.lies u' hu') hdir (fun y target hlink => ?_) fun y =>
    hsame _ (not_below_of_apart h.beside_sysroot.2 h.beside_sysroot.1)
      (not_below_of_apart h.beside_builds.2 h.beside_builds.1)
  rcases hthere y with heq | ⟨-, hnew⟩
  · exact h.links y target (heq ▸ hlink)
  · rw [hnew] at hlink
    cases hlink

/-- So are they below each directory of headers. -/
theorem alike_headers (hu : Beside R B t u) (hu' : Beside R B t u')
    (hsame : ∀ m, ¬ R <+: m → ¬ B <+: m → u'.get? m = u.get? m) (he : s.catalog.find? l = some e)
    (hdirectory : e.publicHeaders = some directory) :
    ∃ D, Alike (s.sourceDir e / directory) D u u' := by
  have hsource := (h.downward l e he).source
  have hheaders := (h.downward l e he).headers directory hdirectory
  have halike := ((h.alike hu hu' hsame).within hsource.descending).within hheaders.descending
  rw [← hsource.div, ← hheaders.div] at halike
  exact ⟨_, halike⟩

/-- What is found below a directory of headers is among the sources. -/
theorem get?_of_beneath {y : List String} {n : Node} (hu : Beside R B t u)
    (he : s.catalog.find? l = some e) (hdirectory : e.publicHeaders = some directory)
    (hbeneath : Beneath u (s.sourceDir e / directory) y n) :
    t.get? (L ++ ((Path.ofText e.source).parts ++ (Path.ofText directory).parts ++ y)) = some n := by
  obtain ⟨D, hlocate, -, hn, hfile⟩ := hbeneath
  have hsource := (h.downward l e he).source
  have hheaders := (h.downward l e he).headers directory hdirectory
  rw [Site.sourceDir, hsource.div, hheaders.div, Path.within_within] at hlocate
  obtain rfl := (h.alike hu hu fun _ _ _ => rfl).lands _
    (hsource.descending.append hheaders.descending) _ _ hlocate
  rw [List.append_assoc] at hn
  rcases hu.get?_apart h.beside_sysroot h.beside_builds _ with heq | ⟨-, hnew⟩
  · exact heq.symm.trans hn
  · exact absurd (Option.some.inj (hn.symm.trans hnew)) hfile

/-- So the sources are the same whenever they are read. -/
theorem steady : s.Steady R B t where
  answers _ _ hu hu' hsame _ _ he :=
    Site.sameSourceAnswers_of_alike (h.alike hu hu' hsame) (h.downward _ _ he)
  headers _ _ hu hu' hsame _ _ _ he hdirectory :=
    have ⟨_, halike⟩ := h.alike_headers hu hu' hsame he hdirectory
    halike.sameUnder
  surveys _ _ hu hu' hsame _ _ _ he hdirectory _ hthere :=
    have ⟨_, halike⟩ := h.alike_headers hu hu' hsame he hdirectory
    halike.surveyed hthere

end Site.Sourced

end Sysroot

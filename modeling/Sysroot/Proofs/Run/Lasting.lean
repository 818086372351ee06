import Sysroot.Proofs.Install.Standing
import Sysroot.Proofs.Run.Artifacts
import Sysroot.Proofs.Run.Sources
import Sysroot.Proofs.Run.Sparing

/-!
# What builds leave behind

What the build of a library installed stands in the sysroot as long as nothing that is delivered later
puts a file above it, and so do the files without which the library is not planned.  The objects that its
plan found and the results of its invocations are left where they were (`Lasting`).  That is so right
after the build (`Run.Built.lasting`), and it still is after the builds of other libraries, although
these may deliver the headers of the library once more (`Lasting.of_inTurn`).
-/

namespace Sysroot

open Effect Sysroot.Tree Sysroot.Tree.Action Sysroot.Install

variable {s : Site} {R B : Location} {k j : Nat} {t₀ t t' : Tree} {W W' : Library → Prop}
  {l d : Library} {e : Catalog.Entry} {x y : List String} {n n' : Node} {m : String} {r : Rehearsal}

/-! ## Deliveries of a build -/

/-- What the build of a library delivers on a bench: the headers of others that are not there yet, and
what it staged. -/
inductive Run.Delivers {σ : Type} (r : Runner σ) (s : Site) (l : Library) (bench : Bench σ) :
    Delivery → Prop
  | headers {e e' : Catalog.Entry} {d : Library} {front rest : List Library} {mid invoked : Bench σ}
      {m : String} {plan : HeaderPlan} {files : List Path} {t : Tree} (he : s.entry l = .ok e)
      (hsplit : e.headerRequires = front ++ d :: rest)
      (hfront : front.forM (provideHeaders r s e) (Work.enter l .planning bench).2 = (.ok (), mid))
      (he' : s.entry d = .ok e') (hm : e'.markerHeader = some m)
      (hmissing : hasHeader mid.tree s.root m = .ok false) (hplan : s.headerPlan mid.tree d = .ok plan)
      (hinvoke : plan.invocations.forM (fun i =>
        invoke r d e.library (.invokedForHeaders d i e.library) i) mid = (.ok (), invoked))
      (hinstall : (Request.headers plan.headersDir plan.place).run s.root d invoked.tree = (.ok files, t)) :
      Delivers r s l bench ⟨d, .headers plan.headersDir plan.place, invoked.tree, t⟩
  | stage {e : Catalog.Entry} {plan : Plan} {provided prepared invoked after : Bench σ}
      {files : List Path} (h : Built r s l e plan bench provided prepared invoked after files) :
      Delivers r s l bench ⟨l, .stage (source plan), invoked.tree, after.tree⟩

/-- What the delivery sends to the sysroot. -/
def Delivery.Sends (d : Delivery) (x : List String) (n : Node) : Prop := d.request.Sends d.before x n

/-- What is delivered while libraries are built in turn. -/
def Builder.DeliversInTurn {σ : Type} (b : Builder σ) (s : Site) (ls : List Library) (bench : Bench σ)
    (d : Delivery) : Prop :=
  ∃ front l rest mid, ls = front ++ l :: rest ∧ b.InTurn s front bench mid ∧
    Run.Delivers b.runner s l mid d

/-- What is sent, or what an entry relies on, is not below what something else is sent to. -/
theorem Catalog.ReliesOn.ne_manifest {c : Catalog} (h : c.ReliesOn e y) : y ≠ manifestNames l := by
  cases h <;> exact fun heq => absurd (List.cons.inj heq).1 (by decide)

/-! ## What lasts -/

/-- Whether what the build of a library installed stands in a tree, along with what its plan relies on
and apart from the build directories of certain libraries. -/
structure Lasting (s : Site) (R B : Location) (W : Library → Prop) (l : Library) (e : Catalog.Entry)
    (plan : Plan) (provided invoked t : Tree) : Prop where
  stands : Stands s.root R l (fun x n => (Request.stage (Run.source plan)).Sends invoked x n) t
  checks : s.checkPrerequisites t e = .ok ()
  since : Spares R B (fun d => d = l ∨ W d) provided t
  kept : Spares R B W invoked t

/-- Whether a request puts no file above what the build of a library installed, nor above what it
relied on. -/
def Install.Request.Clears (r : Request) (t : Tree) (c : Catalog) (e : Catalog.Entry) (plan : Plan)
    (invoked : Tree) : Prop :=
  ∀ x n, r.Sends t x n →
    (∀ y n', (Request.stage (Run.source plan)).Sends invoked y n' → x <+: y → x = y) ∧
    ∀ y, c.ReliesOn e y → x <+: y → x = y

namespace Lasting

variable {plan : Plan} {provided invoked : Tree} (h : Lasting s R B W l e plan provided invoked t)

include h

theorem mono (hW : ∀ d, W d → W' d) : Lasting s R B W' l e plan provided invoked t :=
  ⟨h.stands, h.checks, h.since.mono fun d hd => hd.imp_right (hW d), h.kept.mono hW⟩

variable (hs : s.Apart t₀ R B k j) (hin : ∀ l e, s.catalog.find? l = some e → e.Inward)
  (hground : Grounded R B t₀ t) (hground' : Grounded R B t₀ t')

include hs hin hground hground'

/-- What leaves the sysroot as it is leaves what is installed there. -/
theorem of_spares (hsame : ∀ y, t'.get? (R ++ y) = t.get? (R ++ y)) (hspares : Spares R B W t t') :
    Lasting s R B W l e plan provided invoked t' where
  stands := h.stands.of_same (hground.seat_sysroot hs) (hground'.seat_sysroot hs) hground.links_sysroot
    hground'.links_sysroot hsame
  checks := Site.checkPrerequisites_again hin (hground.seat_sysroot hs) hground.links_sysroot
    (hground'.seat_sysroot hs) hground'.links_sysroot h.checks fun y _ hfile => by
      obtain ⟨content, executable, hn⟩ := hfile
      exact ⟨content, executable, (hsame y).trans hn⟩
  since := h.since.trans (hspares.mono fun _ => .inr)
  kept := h.kept.trans hspares

/-- A request that puts no file above what is installed leaves that, if it sends no other files on behalf
of the same library. -/
theorem of_request {request : Request} {files : List Path} (hrequest : s.Requests d request)
    (hok : request.run s.root d t = (.ok files, t'))
    (hplaces : ∀ x n, (Request.stage (Run.source plan)).Sends invoked x n → IsPlace x)
    (hclears : request.Clears t s.catalog e plan invoked)
    (hself : d = l → ∀ x n n', (Request.stage (Run.source plan)).Sends invoked x n →
      request.Sends t x n' → n' = n) : Lasting s R B W l e plan provided invoked t' := by
  have hseat := hground.seat_sysroot hs
  have haimed := hrequest.aimed hin hs hground
  have heff := haimed.effects hrequest.standard (sited_of_seat hseat) hground.links_sysroot hok
  have hspares : ∀ {W}, Spares R B W t t' :=
    .of_sameAround hs (hrequest.sameAround hs hin hground hok)
  exact ⟨h.stands.of_run hplaces haimed hrequest.standard (sited_of_seat hseat) hground.links_sysroot hok
      (fun x n' hx y n hy => (hclears x n' hx).1 y n hy) hself,
    Site.checkPrerequisites_again hin hseat hground.links_sysroot (hground'.seat_sysroot hs)
      hground'.links_sysroot h.checks fun y hrelies hfile => heff.hasFile hground'.links_sysroot
        (fun x n' hx => (hclears x n' hx).2 y hrelies) hfile hrelies.ne_manifest,
    h.since.trans hspares, h.kept.trans hspares⟩

end Lasting

/-! ## After the build -/

namespace Run.Built

variable {plan : Plan} {files : List Path} {bench provided prepared invoked after : Bench Rehearsal.State}
  (h : Built r.runner s l e plan bench provided prepared invoked after files)
  (hs : s.Apart t₀ R B k j) (hr : r.Undisturbed)
  (hin : ∀ l e, s.catalog.find? l = some e → e.Inward) (hground : Grounded R B t₀ bench.tree)

include h hs hr hin hground

/-- What a build stages goes to places of files, and its sources can be read. -/
theorem installable : (Request.stage (source plan)).Installable invoked.tree s.root R l := by
  obtain ⟨-, -, hinvoked⟩ := h.grounded hs hr.confined hin hground
  have hrequest := h.requests hin
  exact (hrequest.aimed hin hs hinvoked).installable (sited_of_seat (hinvoked.seat_sysroot hs))
    hinvoked.links_sysroot h.installs hrequest.standard

/-- The ground is firm after a build, too. -/
theorem grounded_after : Grounded R B t₀ after.tree := by
  obtain ⟨-, -, hinvoked⟩ := h.grounded hs hr.confined hin hground
  exact (((h.requests hin).run_spec hin hs hinvoked).2 files _ h.installs).1

/-- The invocations leave the sysroot as it was when the plan was made. -/
theorem sameSysroot : ∀ y, invoked.tree.get? (R ++ y) = provided.tree.get? (R ++ y) := by
  obtain ⟨hprovided, hprepared, -⟩ := h.grounded hs hr.confined hin hground
  have hcontains := Site.plan_contains h.entry (hin l e (Site.entry_ok h.entry)) h.plans
  have hidle : Idle s.settings.buildRoot B j (Work.enter l .building provided).2 prepared := by
    have := idle_prepareScratch (B := B) (j := j) hcontains l (Work.enter l .building provided).2
      fun _ _ => trivial
    rwa [h.prepares] at this
  have hstays : StaysBelow s.settings.buildRoot B j (plan.invocations.forM (rehearse l)) :=
    .forM fun i hi => staysBelow_rehearse l (hcontains.invocations i hi)
  intro y
  rw [(hprepared.of_changedBelow hs (hstays.of_apply (invocations_rehearse hr h.invokes)
    fun _ _ => trivial)).2 y]
  exact (hprovided.of_changedBelow hs hidle.tree).2 y

/-- A build spares what the builds of other libraries leave in their build directories. -/
theorem spares (hkey : e.library = l) (W : Library → Prop) :
    Spares R B (fun d => d = l ∨ W d) provided.tree invoked.tree ∧
      Spares R B W invoked.tree after.tree := by
  obtain ⟨hprovided, hprepared, hinvoked⟩ := h.grounded hs hr.confined hin hground
  have hcontains := Site.plan_contains h.entry (hin l e (Site.entry_ok h.entry)) h.plans
  have hprepare : Spares R B (fun d => d = l ∨ W d) provided.tree prepared.tree :=
    Spares.of_prepareScratch (b := (Work.enter l .building provided).2) hs hcontains (.inl hkey)
      hprovided h.prepares
  have hinvoke : Spares R B (fun d => d = l ∨ W d) prepared.tree invoked.tree :=
    .of_invocations hs hcontains.places (fun names hnames hnil => by cases hnil ▸ hnames) (.inl (.inl hkey))
      hprepared (invocations_rehearse hr h.invokes)
  exact ⟨hprepare.trans hinvoke,
    .of_sameAround hs ((h.requests hin).sameAround hs hin hinvoked h.installs)⟩

/-- Right after a build what it installed stands, if it puts no file above what it relies on. -/
theorem lasting (hkey : e.library = l) (hrelies : ∀ x n, (Request.stage (source plan)).Sends invoked.tree x n →
      ∀ y, s.catalog.ReliesOn e y → x <+: y → x = y) :
    Lasting s R B (fun _ => False) l e plan provided.tree invoked.tree after.tree := by
  obtain ⟨hprovided, -, hinvoked⟩ := h.grounded hs hr.confined hin hground
  have hafter := h.grounded_after hs hr hin hground
  have hseat := hinvoked.seat_sysroot hs
  have haimed := (h.requests hin).aimed hin hs hinvoked
  have heff := haimed.effects rfl (sited_of_seat hseat) hinvoked.links_sysroot h.installs
  obtain ⟨hsince, hkept⟩ := h.spares hs hr hin hground hkey fun _ => False
  refine ⟨haimed.stands rfl (sited_of_seat hseat) hinvoked.links_sysroot h.installs,
    Site.checkPrerequisites_again hin (hprovided.seat_sysroot hs) hprovided.links_sysroot
      (hafter.seat_sysroot hs) hafter.links_sysroot (Site.plan_checks h.entry h.plans) fun y hy hfile => ?_,
    hsince.trans (hkept.mono fun _ => False.elim), hkept⟩
  obtain ⟨content, executable, hn⟩ := hfile
  exact heff.hasFile hafter.links_sysroot (fun x n hx => hrelies x n hx y hy)
    ⟨content, executable, (h.sameSysroot hs hr hin hground y).trans hn⟩ hy.ne_manifest

/-- What a build sends is what its plan must stage, or a header that is copied from the sources. -/
theorem sends_cases (hx : (Request.stage (source plan)).Sends invoked.tree x n) :
    (e.Staged x ∧ n ≠ .dir) ∨ ∃ directory p n₀, e.publicHeaders = some directory ∧
      x = "include" :: (Path.ofText e.headerPrefix).parts ++ p ∧
      Beneath invoked.tree (s.sourceDir e / directory) p n ∧
      invoked.tree.node? ((s.sourceDir e / directory).within p) = some n₀ := by
  obtain ⟨-, -, hinvoked⟩ := h.grounded hs hr.confined hin hground
  have hinward := hin l e (Site.entry_ok h.entry)
  have hcontains := Site.plan_contains h.entry hinward h.plans
  rcases hx with ⟨name, hname, p, rfl, hbeneath⟩ | ⟨hno, dir, place, hheaders, p, rfl, hbeneath⟩
  · obtain ⟨D, hlocate, -, hn, hfile⟩ := hbeneath
    have hplain : Plain [e.library.name ++ "-build", "stage", name] := plain_cons.2 ⟨Site.isName_build _,
      plain_cons.2 ⟨by decide, plain_cons.2 ⟨(section_of_standard hname).2, plain_nil⟩⟩⟩
    rw [show (source plan).stage = s.stageDir e.library from hcontains.stageDir, s.stageDir_eq,
      Path.div_name (section_of_standard hname).2, Path.within_within] at hlocate
    obtain rfl := (hinvoked.seat_builds hs).locate_ok hinvoked.links_builds (List.cons_ne_nil _ _)
      hplain.descending hlocate
    have hstaged : HasFile invoked.tree
        (B ++ ([e.library.name ++ "-build", "stage"] ++ name :: p)) := by
      rw [List.append_assoc] at hn
      cases n with
      | file content executable => exact ⟨content, executable, hn⟩
      | link target => exact absurd hn (hinvoked.links_builds _ target)
      | dir => exact absurd rfl hfile
    obtain ⟨names, hnames, heq⟩ := Site.exists_within_stage h.entry hinward h.plans _
      (h.staged_of_hasFile hr hin hs hground hstaged)
    obtain rfl := within_injective heq
    exact .inl ⟨hnames, hfile⟩
  · have hcopied : s.copied e = some (dir, place) :=
      (Site.plan_installs h.entry h.plans).headers.symm.trans hheaders
    obtain ⟨-, directory, hdirectory, rfl, rfl⟩ := Site.copied_eq_some_iff.1 hcopied
    obtain ⟨n₀, hn₀⟩ := (h.installable hs hr hin hground).source _ _ (.inr ⟨fun hs =>
      hno (exists_stageSends_iff.2 hs), _, _, hheaders, p, rfl, rfl, exists_beneath_iff.1 ⟨n, hbeneath⟩⟩)
    exact .inr ⟨directory, p, n₀, hdirectory, rfl, hbeneath, hn₀⟩

/-- A library whose marker header is missing although it was built sends of its headers what it sent when
it was built, wherever it sent anything then. -/
theorem sends_headers (hsteady : s.Steady R B t₀) {t₁ : Tree} {plan' : HeaderPlan}
    (hstands : Stands s.root R l (fun x n => (Request.stage (source plan)).Sends invoked.tree x n) t)
    (hground' : Grounded R B t₀ t) (hm : e.markerHeader = some m)
    (hmissing : hasHeader t s.root m = .ok false) (hplan : s.headerPlan t l = .ok plan')
    (hground₁ : Grounded R B t₀ t₁)
    (hsame : ∀ m, ¬ R <+: m → ¬ B <+: m → t₁.get? m = invoked.tree.get? m)
    (hx : (Request.stage (source plan)).Sends invoked.tree x n)
    (hx' : (Request.headers plan'.headersDir plan'.place).Sends t₁ x n') : n' = n := by
  obtain ⟨-, -, hinvoked⟩ := h.grounded hs hr.confined hin hground
  have hfind := Site.entry_ok h.entry
  obtain ⟨p', hxp', hbeneath'⟩ := hx'
  rcases h.sends_cases hs hr hin hground hx with
    ⟨hstaged, hfile⟩ | ⟨directory, p, n₀, hdirectory, rfl, hbeneath, hn₀⟩
  · -- what is staged below `include` is the marker header, and that would not be missing
    cases hstaged with
    | archive => exact absurd (List.cons.inj hxp').1 (by decide)
    | marker hh =>
      obtain rfl := Option.some.inj (hm.symm.trans hh)
      have hthere := hstands.there _ n hx
      have hmarker : HasFile t (R ++ "include" :: (Path.ofText m).parts) := by
        cases n with
        | file content executable => exact ⟨content, executable, hthere⟩
        | link target => exact absurd hthere (hground'.links_sysroot _ target)
        | dir => exact absurd rfl hfile
      have hfound : hasHeader t s.root m = .ok true := by
        have hdown := (hin l e hfind).marker m hm
        rw [hasHeader, includeDir, hdown.div_section (by decide),
          query_isFile_iff (hground'.seat_sysroot hs) hground'.links_sysroot (List.cons_ne_nil _ _)
            (hdown.descending_section (by decide))]
        exact ⟨((h.installable hs hr hin hground).place _ n hx).2, hmarker⟩
      rw [hfound] at hmissing
      cases hmissing
  · -- headers that are copied from the sources come from the same files in both
    obtain ⟨directory', hdirectory', hdir', hplace'⟩ :=
      Site.headerPlan_fromSources h.entry hdirectory hplan
    obtain rfl := Option.some.inj (hdirectory.symm.trans hdirectory')
    rw [hplace'] at hxp'
    obtain rfl : p = p' := List.append_cancel_left hxp'
    rw [hdir'] at hbeneath'
    have hunder := hsteady.headers _ _ hinvoked.beside hground₁.beside hsame l e directory hfind hdirectory
    have hmem := exists_beneath_iff.1 ⟨n, hbeneath⟩
    have hleft := (hs.headers _ hinvoked.beside l e directory hfind hdirectory).eq_of_node? hbeneath hn₀
    have hright := (hs.headers _ hground₁.beside l e directory hfind hdirectory).eq_of_node? hbeneath'
      (((hunder _).2 hmem).symm.trans hn₀)
    exact hright.symm.trans hleft

end Run.Built

/-! ## After the builds of other libraries -/

theorem Run.forM_concat {σ α : Type} {f : α → Work σ Unit} {as : List α} {a : α} {b b₁ b₂ : Bench σ}
    (h : as.forM f b = (.ok (), b₁)) (h' : f a b₁ = (.ok (), b₂)) :
    (as ++ [a]).forM f b = (.ok (), b₂) := by
  induction as generalizing b with
  | nil =>
    cases h
    exact bind_of_ok h'
  | cons c as ih =>
    obtain ⟨⟨⟩, b', hc, hrest⟩ := bind_ok h
    exact (bind_of_ok hc).trans (ih hrest)

/-- The headers that are provided for others are put out in the header stage of their library, while the
sysroot stays as it is. -/
theorem Run.headerPlan_invoked {plan : HeaderPlan} {onBehalfOf : Library} {event : Invocation → Event}
    {b b' : Bench Rehearsal.State} (hs : s.Apart t₀ R B k j) (hr : r.Undisturbed)
    (hin : ∀ l e, s.catalog.find? l = some e → e.Inward) (he : s.entry d = .ok e)
    (hplan : s.headerPlan t d = .ok plan) (hground : Grounded R B t₀ b.tree)
    (hinvoke : plan.invocations.forM (fun i => invoke r.runner d onBehalfOf (event i) i) b =
      (.ok (), b')) :
    s.Requests d (.headers plan.headersDir plan.place) ∧ Grounded R B t₀ b'.tree ∧
      (∀ y, b'.tree.get? (R ++ y) = b.tree.get? (R ++ y)) ∧ ∀ W, Spares R B W b.tree b'.tree := by
  obtain ⟨hplaces, hprovides⟩ := Site.headerPlan_contains he (hin d e (Site.entry_ok he)) hplan
  have hrehearse := invocations_rehearse hr hinvoke
  have hstays : StaysBelow s.settings.buildRoot B j (plan.invocations.forM (rehearse d)) :=
    .forM fun i hi => staysBelow_rehearse d (Site.inside_of_at (hplaces i hi))
  obtain ⟨hground', hsame⟩ := hground.of_changedBelow hs (hstays.of_apply hrehearse fun _ _ => trivial)
  exact ⟨⟨e, he, hprovides⟩, hground', hsame, fun W => .of_invocations hs hplaces
    (fun names ⟨_, _, heq⟩ hnil => by cases heq.symm.trans hnil)
    (.inr fun names ⟨_, _, heq⟩ => by rw [heq]; rfl) hground hrehearse⟩

/-- Headers that are provided one after the other spare what builds spare. -/
theorem Run.headers_spares {dependent : Catalog.Entry} {ls : List Library} {b b' : Bench Rehearsal.State}
    (hs : s.Apart t₀ R B k j) (hr : r.Undisturbed) (hin : ∀ l e, s.catalog.find? l = some e → e.Inward)
    (hground : Grounded R B t₀ b.tree)
    (h : ls.forM (provideHeaders r.runner s dependent) b = (.ok (), b')) (W : Library → Prop) :
    Spares R B W b.tree b'.tree := by
  induction ls generalizing b with
  | nil =>
    cases h
    exact .refl R B W _
  | cons d ls ih =>
    obtain ⟨⟨⟩, b₁, hfirst, hrest⟩ := bind_ok h
    have hstep : Work.Stepwise r.runner s [d] (provideHeaders r.runner s dependent d) :=
      stepwise_provideHeaders hin dependent d
    have hground₁ := grounded_of_stepwise hs hr.confined hin hstep hfirst hground
    refine Spares.trans ?_ (ih hground₁ hrest)
    obtain ⟨e, he, ⟨hsame, -⟩ | ⟨m, plan, invoked, files, -, -, hplan, hinvoke, hinstall⟩⟩ :=
      provideHeaders_ok hfirst
    · rw [hsame]
      exact .refl R B W _
    · obtain ⟨hrequest, hground₂, -, hspares⟩ := headerPlan_invoked hs hr hin he hplan hground hinvoke
      exact (hspares W).trans (.of_sameAround hs (hrequest.sameAround hs hin hground₂ hinstall))

/-- What is delivered is asked for by the site, on firm ground. -/
theorem Run.Delivers.grounded {bench : Bench Rehearsal.State} {delivery : Delivery}
    (hs : s.Apart t₀ R B k j) (hr : r.Undisturbed) (hin : ∀ l e, s.catalog.find? l = some e → e.Inward)
    (hground : Grounded R B t₀ bench.tree) (h : Delivers r.runner s l bench delivery) :
    s.Requests delivery.library delivery.request ∧ Grounded R B t₀ delivery.before := by
  cases h with
  | stage hbuilt =>
    obtain ⟨-, -, hinvoked⟩ := hbuilt.grounded hs hr.confined hin hground
    exact ⟨hbuilt.requests hin, hinvoked⟩
  | @headers e _ d front _ mid _ _ _ _ _ _ _ hfront he' _ _ hplan hinvoke =>
    have hprovide : Work.Stepwise r.runner s [l] (front.forM (provideHeaders r.runner s e)) :=
      Keeps.forM fun d _ => stepwise_provideHeaders hin e d
    have hmid : Grounded R B t₀ mid.tree :=
      grounded_of_stepwise hs hr.confined hin hprovide hfront hground
    obtain ⟨hrequest, hinvoked, -, -⟩ := headerPlan_invoked hs hr hin he' hplan hmid hinvoke
    exact ⟨hrequest, hinvoked⟩

namespace Lasting

variable {l' : Library} {e' : Catalog.Entry} {plan plan' : Plan} {files files' : List Path}
  {bench provided prepared invoked after bench' provided' prepared' invoked' after' :
    Bench Rehearsal.State}
  (hs : s.Apart t₀ R B k j) (hr : r.Undisturbed)
  (hin : ∀ l e, s.catalog.find? l = some e → e.Inward) (hsteady : s.Steady R B t₀)
  (hbuilt : Run.Built r.runner s l e plan bench provided prepared invoked after files)
  (hground : Grounded R B t₀ bench.tree)

include hs hr hin hsteady hbuilt hground

/-- What a build left lasts while headers are provided for another library. -/
theorem of_headers {ls front : List Library} {b b' : Bench Rehearsal.State}
    (hclears : ∀ d, Run.Delivers r.runner s l' bench' d →
      d.request.Clears d.before s.catalog e plan invoked.tree)
    (he' : s.entry l' = .ok e') (hsplit : e'.headerRequires = front ++ ls)
    (hfront : front.forM (Run.provideHeaders r.runner s e') (Work.enter l' .planning bench').2 =
      (.ok (), b))
    (hok : ls.forM (Run.provideHeaders r.runner s e') b = (.ok (), b')) (hground' : Grounded R B t₀ b.tree)
    (h : Lasting s R B W l e plan provided.tree invoked.tree b.tree) :
    Lasting s R B W l e plan provided.tree invoked.tree b'.tree := by
  induction ls generalizing front b with
  | nil =>
    cases hok
    exact h
  | cons d ls ih =>
    obtain ⟨⟨⟩, b₁, hfirst, hrest⟩ := bind_ok hok
    have hstep : Work.Stepwise r.runner s [l'] (Run.provideHeaders r.runner s e' d) :=
      Run.stepwise_provideHeaders hin e' d
    have hground₁ := Run.grounded_of_stepwise hs hr.confined hin hstep hfirst hground'
    refine ih (hsplit.trans (List.append_cons front d ls)) (Run.forM_concat hfront hfirst) hrest
      hground₁ ?_
    obtain ⟨e₁, he₁, ⟨hsame, -⟩ | ⟨m, plan₁, invoked₁, files₁, hm, hmissing, hplan₁, hinvoke, hinstall⟩⟩ :=
      Run.provideHeaders_ok hfirst
    · rwa [hsame]
    obtain ⟨hrequest, hground₂, hsame, hspares⟩ :=
      Run.headerPlan_invoked hs hr hin he₁ hplan₁ hground' hinvoke
    have hinvoked := h.of_spares hs hin hground' hground₂ hsame (hspares W)
    refine hinvoked.of_request hs hin hground₂ hground₁ hrequest hinstall
      (fun x n hx => ((hbuilt.installable hs hr hin hground).place x n hx).1)
      (hclears _ (.headers he' hsplit hfront he₁ hm hmissing hplan₁ hinvoke hinstall)) ?_
    rintro rfl x n n' hx hx'
    obtain rfl := Except.ok.inj (he₁.symm.trans hbuilt.entry)
    exact hbuilt.sends_headers hs hr hin hground hsteady h.stands hground' hm hmissing hplan₁ hground₂
      hinvoked.kept.elsewhere hx hx'

variable (hkeys : ∀ l e, s.catalog.find? l = some e → e.library = l)

include hkeys

/-- What a build left lasts while another library is built. -/
theorem of_built (hne : l' ≠ l)
    (hclears : ∀ d, Run.Delivers r.runner s l' bench' d →
      d.request.Clears d.before s.catalog e plan invoked.tree)
    (hbuilt' : Run.Built r.runner s l' e' plan' bench' provided' prepared' invoked' after' files')
    (hground' : Grounded R B t₀ bench'.tree)
    (h : Lasting s R B W l e plan provided.tree invoked.tree bench'.tree) :
    Lasting s R B (fun d => d = l' ∨ W d) l e plan provided.tree invoked.tree after'.tree := by
  obtain ⟨hprovided, hprepared, hinvoked⟩ := hbuilt'.grounded hs hr.confined hin hground'
  have hkey' := hkeys l' e' (Site.entry_ok hbuilt'.entry)
  have hlasting : Lasting s R B W l e plan provided.tree invoked.tree provided'.tree :=
    of_headers (b := (Work.enter l' .planning bench').2) hs hr hin hsteady hbuilt hground hclears
      hbuilt'.entry (List.nil_append e'.headerRequires).symm rfl hbuilt'.provides hground' h
  obtain ⟨hspares, -⟩ := hbuilt'.spares hs hr hin hground' hkey' W
  have hlasting' := (hlasting.mono fun _ => Or.inr).of_spares hs hin hprovided hinvoked
    (hbuilt'.sameSysroot hs hr hin hground') hspares
  exact hlasting'.of_request hs hin hinvoked (hbuilt'.grounded_after hs hr hin hground')
    (hbuilt'.requests hin) hbuilt'.installs
    (fun x n hx => ((hbuilt.installable hs hr hin hground).place x n hx).1) (hclears _ (.stage hbuilt'))
    fun heq => absurd heq hne

/-- What a build left lasts while other libraries are built in turn. -/
theorem of_inTurn {b : Builder Rehearsal.State} {ls : List Library} {start last : Bench Rehearsal.State}
    (hrunner : b.runner = r.runner) (hnot : l ∉ ls)
    (hclears : ∀ d, b.DeliversInTurn s ls start d →
      d.request.Clears d.before s.catalog e plan invoked.tree)
    (hturns : b.InTurn s ls start last) (hground' : Grounded R B t₀ start.tree)
    (h : Lasting s R B W l e plan provided.tree invoked.tree start.tree) :
    Lasting s R B (fun d => d ∈ ls ∨ W d) l e plan provided.tree invoked.tree last.tree := by
  induction hturns generalizing W with
  | nil bench => exact h.mono fun _ => .inr
  | @cons rest bench next last l' files hgoing hbuild hrest ih =>
    rw [hrunner] at hbuild
    obtain ⟨e', plan', provided', prepared', invoked', hbuilt'⟩ := Run.build_ok hbuild
    have hnext := h.of_built hs hr hin hsteady hbuilt hground hkeys (fun heq => hnot (heq ▸ List.mem_cons_self))
      (fun d hd => hclears d ⟨[], l', rest, bench, rfl, .nil bench, hrunner ▸ hd⟩) hbuilt' hground'
    refine (ih (fun hl => hnot (List.mem_cons_of_mem l' hl)) (fun d hd => ?_)
      (hbuilt'.grounded_after hs hr hin hground') hnext).mono fun d hd => ?_
    · obtain ⟨front, l₁, rest₁, mid, rfl, hfront, hdelivers⟩ := hd
      exact hclears d ⟨l' :: front, l₁, rest₁, mid, rfl, .cons hgoing (hrunner ▸ hbuild) hfront, hdelivers⟩
    · rw [List.mem_cons]
      tauto

end Lasting

end Sysroot

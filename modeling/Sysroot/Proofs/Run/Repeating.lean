import Sysroot.Proofs.Install.Contents
import Sysroot.Proofs.Run.Rehearsing
import Sysroot.Proofs.Run.Scratch
import Sysroot.Proofs.Tree.Replay

/-!
# Rehearsals that are repeated

A rehearsed invocation that went well goes well again in every tree that has nothing in its way
(`Run.replays_rehearse`), what it changes is on the way to its outputs (`Run.works_rehearse`), and
these are files afterwards (`Run.invocations_hasFile`).  So invocations that were run in a faultless
rehearsal can be run once more (`Run.invocations_of_rehearse`).
-/

namespace Sysroot

open Effect Sysroot.Tree Sysroot.Tree.Action Sysroot.Install

namespace Invocation

variable {i : Invocation} {t : Tree}

/-- No output is missing exactly when all are there. -/
theorem missingOutputs_eq_nil_iff :
    i.missingOutputs t = .ok [] ↔ ∀ p ∈ i.outputs, t.query p Tree.holds = .ok true := by
  constructor
  · intro h p hp
    obtain ⟨b, hb, hmem⟩ := except_mem_of_filterM h hp
    rcases hquery : t.query p Tree.holds with e | there
    · rw [hquery] at hb
      cases hb
    · rw [hquery] at hb
      cases there with
      | true => rfl
      | false =>
        cases hb
        cases hmem rfl
  · intro h
    refine except_filterM_of_false fun p hp => ?_
    rw [h p hp]
    rfl

end Invocation

variable {l onBehalfOf : Library} {i : Invocation} {root : Path} {B : Location} {j : Nat}
  {S : Location → Prop} {t t' u v : Tree} {is : List Invocation}

/-! ## Where invocations work -/

/-- Whether an invocation works at places below a seat that can be made, which are some of those
that matter. -/
structure Invocation.Placed (root : Path) (B : Location) (S : Location → Prop) (i : Invocation) :
    Prop where
  cwd : ∃ names, names ≠ [] ∧ Plain names ∧ i.cwd = root.within names ∧
    ∀ y, y ≠ [] → y <+: names → S (B ++ y)
  outputs : ∀ p ∈ i.outputs, ∃ front name, front ≠ [] ∧ Plain (front ++ [name]) ∧
    p = root.within (front ++ [name]) ∧ ∀ y, y ≠ [] → y <+: front ++ [name] → S (B ++ y)

/-- Whether the outputs of an invocation were there in some tree. -/
def Invocation.Verified (root : Path) (B : Location) (j : Nat) (i : Invocation) : Prop :=
  ∃ t, Seat t root B j ∧ NoLinks t B ∧ i.missingOutputs t = .ok []

/-- Outputs at places below a seat are below its directory, and so are the directories that they are
in. -/
theorem Invocation.below_outputs {outputs : List Path} (h : ∀ p ∈ outputs, ∃ front name, front ≠ [] ∧
    Plain (front ++ [name]) ∧ p = root.within (front ++ [name]) ∧
      ∀ y, y ≠ [] → y <+: front ++ [name] → S (B ++ y)) :
    ∀ p ∈ outputs, Below root p ∧ Below root p.parent := by
  intro p hp
  obtain ⟨front, name, hfront, hplain, rfl, -⟩ := h p hp
  exact ⟨⟨_, concat_ne_nil front name, hplain.descending, rfl⟩, front, hfront,
    fun n hn => hplain.descending n (List.mem_append_left _ hn), Path.parent_within⟩

theorem Invocation.Placed.inside (h : i.Placed root B S) : i.Inside root where
  cwd := by
    obtain ⟨names, hne, hplain, hcwd, -⟩ := h.cwd
    exact ⟨names, hne, hplain.descending, hcwd⟩
  outputs := Invocation.below_outputs h.outputs

/-- An invocation whose outputs were there works at places that can be made. -/
theorem Invocation.Verified.placed {s : Site} {places : List String → Prop}
    (h : i.Verified s.settings.buildRoot B j) (hat : i.At s l places)
    (hS : ∀ y, y ≠ [] → (y <+: [l.name ++ "-build"] ∨
      ∃ names, places names ∧ y <+: (l.name ++ "-build") :: names) → S (B ++ y)) :
    i.Placed s.settings.buildRoot B S := by
  obtain ⟨t, hseat, hlinks, hmissing⟩ := h
  refine ⟨⟨_, List.cons_ne_nil _ _, List.forall_mem_singleton.2 (Site.isName_build l),
    hat.cwd.trans (s.scratchDir_eq l), fun y hy hpre => hS y hy (.inl hpre)⟩, fun p hp => ?_⟩
  obtain ⟨names, hplace, hne, hnames, rfl⟩ := hat.outputs p hp
  have hbuild : Plain [l.name ++ "-build"] := List.forall_mem_singleton.2 (Site.isName_build l)
  have hnames' : Descending ((l.name ++ "-build") :: names) := hbuild.descending.append hnames
  have hquery := Invocation.missingOutputs_eq_nil_iff.1 hmissing _ hp
  have hholds := (query_ok hquery).resolve_right nofun
  obtain ⟨n, hn⟩ := Option.isSome_iff_exists.1 hholds
  obtain ⟨hfits, hget⟩ := (hseat.node?_eq_some hlinks (List.cons_ne_nil _ _) hnames').1 hn
  have hplain : Plain ((l.name ++ "-build") :: names) := fun n hn =>
    isName_of_get? hget n (List.mem_append_right _ hn)
  obtain ⟨front, name, rfl⟩ : ∃ front name, names = front ++ [name] :=
    ⟨names.dropLast, names.getLast hne, (List.dropLast_concat_getLast hne).symm⟩
  exact ⟨(l.name ++ "-build") :: front, name, List.cons_ne_nil _ _, hplain, rfl,
    fun y hy hpre => hS y hy (.inr ⟨_, hplace, hpre⟩)⟩

/-- A file stays a file when the tree keeps its shape and gets no links. -/
theorem Tree.Shaped.hasFile {y : List String} (h : Shaped (fun _ => True) t t') (hlinks : NoLinks t' B)
    (hfile : HasFile t (B ++ y)) : HasFile t' (B ++ y) := by
  obtain ⟨content, executable, hn⟩ := hfile
  obtain ⟨n, hn', hiff⟩ := h _ trivial _ hn
  cases n with
  | file content' executable' => exact ⟨content', executable', hn'⟩
  | link target => exact absurd hn' (hlinks y target)
  | dir => cases hiff.1 rfl

namespace Rehearsal

/-- Writing outputs makes the directories that they are in and changes nothing else but them. -/
theorem works_writeOutputs {D O : List String → Prop} {outputs : List Path}
    (h : ∀ p ∈ outputs, ∃ front name, front ≠ [] ∧ Descending (front ++ [name]) ∧
      p = root.within (front ++ [name]) ∧ D front ∧ O (front ++ [name])) :
    Works root B j D O (writeOutputs i outputs) := by
  induction outputs with
  | nil => exact works_of_ok fun _ _ _ h => by cases h; exact Std.Refl.refl _
  | cons output rest ih =>
    obtain ⟨front, name, hfront, hnames, rfl, hD, hO⟩ := h output List.mem_cons_self
    rw [writeOutputs, Path.parent_within]
    exact Keeps.bind (works_ensureDirs hfront (hnames.of_prefix (List.prefix_append _ _)) hD) fun _ =>
      Keeps.bind (works_writeText (concat_ne_nil front name) hnames hO _) fun _ =>
        ih fun p hp => h p (List.mem_cons_of_mem _ hp)

section

variable {outputs : List Path} (h : ∀ p ∈ outputs, ∃ front name, front ≠ [] ∧
  Plain (front ++ [name]) ∧ p = root.within (front ++ [name]) ∧
    ∀ y, y ≠ [] → y <+: front ++ [name] → S (B ++ y))

include h

/-- Outputs can be written again. -/
theorem replays_writeOutputs : Replays S root B j (writeOutputs i outputs) := by
  induction outputs with
  | nil => exact .pure ()
  | cons output rest ih =>
    obtain ⟨front, name, hfront, hplain, rfl, hS⟩ := h output List.mem_cons_self
    have hplain' : Plain front := fun n hn => hplain n (List.mem_append_left _ hn)
    rw [writeOutputs, Path.parent_within, ← bind_assoc]
    exact (Replays.putText hfront hplain hS _).bind
      ((staysBelow_ensureDirs ⟨front, hfront, hplain'.descending, rfl⟩).bind fun _ =>
        staysBelow_writeText ⟨_, concat_ne_nil front name, hplain.descending, rfl⟩ _)
      fun _ => ih fun p hp => h p (List.mem_cons_of_mem _ hp)

/-- Outputs that were written are files. -/
theorem writeOutputs_hasFile (hseat : Seat t root B j) (hlinks : NoLinks t B)
    (hok : writeOutputs i outputs t = (.ok (), t')) :
    ∀ names, root.within names ∈ outputs → Fits root names ∧ HasFile t' (B ++ names) := by
  induction outputs generalizing t with
  | nil => exact nofun
  | cons output rest ih =>
    have hrest := fun p hp => h p (List.mem_cons_of_mem output hp)
    obtain ⟨front, name, hfront, hplain, rfl, hS⟩ := h output List.mem_cons_self
    have hplain' : Plain front := fun n hn => hplain n (List.mem_append_left _ hn)
    rw [writeOutputs, Path.parent_within] at hok
    obtain ⟨⟨⟩, t₁, hmake, hok⟩ := bind_ok hok
    obtain ⟨⟨⟩, t₂, hwrite, hok⟩ := bind_ok hok
    obtain ⟨hs₁, hlinks₁⟩ := (staysBelow_ensureDirs ⟨front, hfront, hplain'.descending,
      rfl⟩).of_apply hmake (fun _ _ => trivial) hseat hlinks
    have hseat₁ := hseat.of_sameAround hs₁
    obtain ⟨hs₂, hlinks₂⟩ := (staysBelow_writeText ⟨_, concat_ne_nil front name, hplain.descending,
      rfl⟩ _).of_apply hwrite (fun _ _ => trivial) hseat₁ hlinks₁
    have hseat₂ := hseat₁.of_sameAround hs₂
    intro names hnames
    rcases List.mem_cons.1 hnames with heq | hnames
    · obtain rfl := within_injective heq
      rw [writeText, apply_apply] at hwrite
      split at hwrite
      · next t₃ hwritten =>
        cases hwrite
        obtain ⟨-, ⟨hfits, -⟩, -⟩ := Replays.writeFile_again (S := fun _ => True) hseat₁ hlinks₁
          hplain trivial hwritten
        have hfile := hseat₁.writeFile_ok hlinks₁ (concat_ne_nil front name) hplain.descending
          hwritten (B ++ (front ++ [name]))
        rw [if_pos ⟨rfl, hplain _ (List.getLast_mem _)⟩] at hfile
        obtain ⟨hshaped, -⟩ := replays_writeOutputs hrest t₂ () t' hseat₂ hlinks₂ hok
        obtain ⟨-, hlinks'⟩ := (staysBelow_writeOutputs i (Invocation.below_outputs hrest)).of_apply hok
          (fun _ _ => trivial) hseat₂ hlinks₂
        exact ⟨hfits, hshaped.hasFile hlinks' ⟨_, _, hfile⟩⟩
      · cases hwrite
    · exact ih hrest hseat₂ hlinks₂ hok names hnames

end

end Rehearsal

/-! ## Rehearsed invocations -/

namespace Run

/-- The directories that are made for an invocation are where it works and where its outputs are. -/
theorem mem_dirs {dir : Path}
    (h : dir ∈ Path.sort (i.cwd :: i.outputs.map Path.parent).eraseDups) :
    dir = i.cwd ∨ ∃ p ∈ i.outputs, dir = p.parent := by
  have hmem := List.mem_eraseDups.1 ((List.mergeSort_perm _ _).mem_iff.1 h)
  rcases List.mem_cons.1 hmem with rfl | hmem
  · exact .inl rfl
  · obtain ⟨output, houtput, rfl⟩ := List.mem_map.1 hmem
    exact .inr ⟨output, houtput, rfl⟩

theorem replays_prepareDirs (l : Library) (hi : i.Placed root B S) :
    Replays S root B j (prepareDirs l i) := by
  refine .forM fun dir hdir => ?_
  obtain ⟨names, hne, hplain, rfl, hS⟩ : ∃ names, names ≠ [] ∧ Plain names ∧
      dir = root.within names ∧ ∀ y, y ≠ [] → y <+: names → S (B ++ y) := by
    rcases mem_dirs hdir with rfl | ⟨p, hp, rfl⟩
    · exact hi.cwd
    · obtain ⟨front, name, hfront, hplain, rfl, hS⟩ := hi.outputs p hp
      exact ⟨front, hfront, fun n hn => hplain n (List.mem_append_left _ hn), Path.parent_within,
        fun y hy hpre => hS y hy (hpre.trans (List.prefix_append _ _))⟩
  exact ⟨(Replays.ensureDirs hne hplain hS).onRefusal _, staysBelow_onRefusal
    (staysBelow_ensureDirs ⟨names, hne, hplain.descending, rfl⟩) fun _ => (reads_fail _).staysBelow⟩

/-- An invocation can be rehearsed again. -/
theorem replays_rehearse (l : Library) (hi : i.Placed root B S) :
    Replays S root B j (rehearse l i) :=
  (replays_prepareDirs l hi).bind (staysBelow_prepareDirs l hi.inside) fun _ =>
    Rehearsal.replays_writeOutputs hi.outputs

theorem replays_invocations (l : Library) (h : ∀ i ∈ is, i.Placed root B S) :
    Replays S root B j (is.forM (rehearse l)) :=
  .forM fun i hi => ⟨replays_rehearse l (h i hi), staysBelow_rehearse l (h i hi).inside⟩

/-- After an invocation was rehearsed its outputs are files. -/
theorem rehearse_hasFile (hi : i.Placed root B S) (hseat : Seat t root B j) (hlinks : NoLinks t B)
    (hok : rehearse l i t = (.ok (), t')) :
    ∀ names, root.within names ∈ i.outputs → Fits root names ∧ HasFile t' (B ++ names) := by
  obtain ⟨⟨⟩, t₁, hprepare, hwrite⟩ := bind_ok hok
  obtain ⟨hs₁, hlinks₁⟩ :=
    (staysBelow_prepareDirs l hi.inside).of_apply hprepare (fun _ _ => trivial) hseat hlinks
  exact Rehearsal.writeOutputs_hasFile hi.outputs (hseat.of_sameAround hs₁) hlinks₁ hwrite

/-- After an invocation was rehearsed its outputs are there. -/
theorem rehearse_verified (hi : i.Placed root B S) (hseat : Seat t root B j) (hlinks : NoLinks t B)
    (hok : rehearse l i t = (.ok (), t')) : i.missingOutputs t' = .ok [] := by
  obtain ⟨hs, hlinks'⟩ :=
    (staysBelow_rehearse l hi.inside).of_apply hok (fun _ _ => trivial) hseat hlinks
  refine Invocation.missingOutputs_eq_nil_iff.2 fun p hp => ?_
  obtain ⟨front, name, -, hplain, rfl, -⟩ := hi.outputs p hp
  obtain ⟨hfits, content, executable, hn⟩ := rehearse_hasFile hi hseat hlinks hok _ hp
  rw [(hseat.of_sameAround hs).query hlinks'.askable (concat_ne_nil front name) hplain hfits,
    Tree.holds, ((hseat.of_sameAround hs).node?_eq_some hlinks' (concat_ne_nil front name)
      hplain.descending).2 ⟨hfits, hn⟩]
  rfl

/-- What the rehearsal of an invocation changes is on the way to its outputs. -/
theorem works_rehearse {s : Site} {d : Library} {places : List String → Prop} (l : Library)
    (hi : i.At s d places) : Works s.settings.buildRoot B j
      (fun y => y <+: [d.name ++ "-build"] ∨ ∃ names, places names ∧ y <+: (d.name ++ "-build") :: names)
      (fun y => ∃ names, places names ∧ y = (d.name ++ "-build") :: names) (rehearse l i) := by
  have hbuild : Plain [d.name ++ "-build"] := List.forall_mem_singleton.2 (Site.isName_build d)
  have houtputs : ∀ p ∈ i.outputs, ∃ front name, front ≠ [] ∧ Descending (front ++ [name]) ∧
      p = s.settings.buildRoot.within (front ++ [name]) ∧
      (front <+: [d.name ++ "-build"] ∨
        ∃ names, places names ∧ front <+: (d.name ++ "-build") :: names) ∧
      ∃ names, places names ∧ front ++ [name] = (d.name ++ "-build") :: names := by
    intro p hp
    obtain ⟨names, hplace, hne, hnames, rfl⟩ := hi.outputs p hp
    obtain ⟨front, name, rfl⟩ : ∃ front name, names = front ++ [name] :=
      ⟨names.dropLast, names.getLast hne, (List.dropLast_concat_getLast hne).symm⟩
    exact ⟨(d.name ++ "-build") :: front, name, List.cons_ne_nil _ _, hbuild.descending.append hnames,
      rfl, .inr ⟨_, hplace, (List.prefix_cons_inj _).2 (List.prefix_append _ _)⟩, _, hplace, rfl⟩
  refine Keeps.bind (Keeps.forM fun dir hdir => works_onRefusal ?_ _) fun _ =>
    Rehearsal.works_writeOutputs houtputs
  rcases mem_dirs hdir with rfl | ⟨p, hp, rfl⟩
  · rw [hi.cwd, s.scratchDir_eq]
    exact works_ensureDirs (List.cons_ne_nil _ _) hbuild.descending (.inl List.prefix_rfl)
  · obtain ⟨front, name, hfront, hnames, rfl, hD, -⟩ := houtputs p hp
    rw [Path.parent_within]
    exact works_ensureDirs hfront (hnames.of_prefix (List.prefix_append _ _)) hD

end Run

/-! ## Invocations -/

/-- Whether nothing happens in a rehearsal but what its invocations put out, and all of them go
well. -/
structure Rehearsal.Faultless (r : Rehearsal) : Prop extends r.Undisturbed where
  fails : ∀ i, r.fails i = false
  stops : ∀ i, r.stops i = false

/-- Whether nobody asked a rehearsed build to stop. -/
structure Bench.Calm (b : Bench Rehearsal.State) : Prop where
  going : b.cancelled = false
  memory : b.memory.cancelled = false

namespace Run

variable {r : Rehearsal} {b b' : Bench Rehearsal.State} {s : Site} {event : Event}

/-- An invocation goes well when its outputs can be written and then are there. -/
theorem run_of_writes (hr : r.Faultless) (hcalm : b.Calm)
    (hwrites : Rehearsal.writeOutputs i i.outputs b.tree = (.ok (), t'))
    (hthere : i.missingOutputs t' = .ok []) :
    ∃ c b', Work.run r.runner i b = (.ok c, b') ∧ b'.tree = t' ∧ b'.Calm := by
  have hexecute : r.execute i b.tree b.memory =
      ⟨.ok { tool := i.tool, argv := i.args, cwd := i.cwd, exitCode := 0 }, b.tree,
        { invocations := b.memory.invocations ++ [i], cancelled := false }, false⟩ := by
    simp [Rehearsal.execute, hcalm.memory, hr.incident, hr.fails, hr.stops, pure_apply]
  have hverify : ∀ c, i.verify t' c = .ok c := fun c => by
    rw [Invocation.verify, hthere]
    rfl
  have hsettle : ∀ c, r.settle i c b.tree = (.ok c, t') := fun c => by
    rw [Rehearsal.settle, bind_of_ok hwrites, bind_of_ok (get_apply t'), hverify,
      Rehearsal.forgetOutputs_of_nil hr.forgets]
    rfl
  have hran : r.runner.run i b.tree b.memory =
      ⟨.ok { tool := i.tool, argv := i.args, cwd := i.cwd, exitCode := 0 }, t',
        { invocations := b.memory.invocations ++ [i], cancelled := false }, false⟩ := by
    show (r.execute i b.tree b.memory).andThen (r.settle i) = _
    rw [hexecute, Ran.andThen]
    simp only [hsettle]
  refine ⟨_, _, by rw [Work.run, hran], rfl, ?_⟩
  exact ⟨hcalm.going, rfl⟩

/-- An invocation that can be rehearsed on the tree of a bench where nobody asked to stop goes well
there. -/
theorem invoke_of_rehearse (hr : r.Faultless) (hi : i.Placed root B S) (hcalm : b.Calm)
    (hseat : Seat b.tree root B j) (hlinks : NoLinks b.tree B) (onBehalfOf : Library) (event : Event)
    (hok : rehearse l i b.tree = (.ok (), t')) :
    ∃ b', invoke r.runner l onBehalfOf event i b = (.ok (), b') ∧ b'.tree = t' ∧ b'.Calm := by
  have hthere := rehearse_verified hi hseat hlinks hok
  obtain ⟨⟨⟩, t₁, hprepare, hwrites⟩ := bind_ok hok
  have hgoes : Work.unlessCancelled onBehalfOf b = (.ok (), b) := by
    rw [Work.unlessCancelled, bind_of_ok (get_apply b), hcalm.going]
    rfl
  have hmake : Work.onTree (prepareDirs l i) b = (.ok (), { b with tree := t₁ }) := by
    rw [Work.onTree, hprepare]
  have hnote : Work.note event { b with tree := t₁ } = (.ok (), Bench.note { b with tree := t₁ } event) :=
    rfl
  obtain ⟨c, b', hrun, htree, hcalm'⟩ := run_of_writes (b := Bench.note { b with tree := t₁ } event) hr
    ⟨hcalm.going, hcalm.memory⟩ hwrites hthere
  refine ⟨b', ?_, htree, hcalm'⟩
  rw [invoke, bind_of_ok hgoes, bind_of_ok hmake, bind_of_ok hnote, bind_of_ok hrun]
  rfl

/-- Invocations that can be rehearsed one after the other go well one after the other. -/
theorem invocations_of_rehearse (hr : r.Faultless) (h : ∀ i ∈ is, i.Placed root B S) (hcalm : b.Calm)
    (hseat : Seat b.tree root B j) (hlinks : NoLinks b.tree B) (onBehalfOf : Library)
    (event : Invocation → Event) (hok : is.forM (rehearse l) b.tree = (.ok (), t')) :
    ∃ b', is.forM (fun i => invoke r.runner l onBehalfOf (event i) i) b = (.ok (), b') ∧
      b'.tree = t' ∧ b'.Calm := by
  induction is generalizing b with
  | nil =>
    cases hok
    exact ⟨b, rfl, rfl, hcalm⟩
  | cons i is ih =>
    obtain ⟨⟨⟩, t₁, hfirst, hrest⟩ := bind_ok hok
    have hi := h i List.mem_cons_self
    obtain ⟨hs, hlinks₁⟩ :=
      (staysBelow_rehearse l hi.inside).of_apply hfirst (fun _ _ => trivial) hseat hlinks
    obtain ⟨b₁, hinvoke, rfl, hcalm₁⟩ :=
      invoke_of_rehearse hr hi hcalm hseat hlinks onBehalfOf (event i) hfirst
    obtain ⟨b', hothers, htree, hcalm'⟩ := ih (fun i' hi' => h i' (List.mem_cons_of_mem _ hi')) hcalm₁
      (hseat.of_sameAround hs) hlinks₁ hrest
    exact ⟨b', (bind_of_ok hinvoke).trans hothers, htree, hcalm'⟩

/-- The outputs of invocations that went well one after the other were there. -/
theorem invocations_verified (hr : r.Undisturbed) (h : ∀ i ∈ is, i.Inside root)
    (hseat : Seat b.tree root B j) (hlinks : NoLinks b.tree B) {event : Invocation → Event}
    (hok : is.forM (fun i => invoke r.runner l onBehalfOf (event i) i) b = (.ok (), b')) :
    ∀ i ∈ is, i.Verified root B j := by
  induction is generalizing b with
  | nil => exact nofun
  | cons i is ih =>
    obtain ⟨⟨⟩, b₁, hfirst, hrest⟩ := bind_ok hok
    obtain ⟨-, hrehearse, hthere⟩ := invoke_rehearses hr hfirst
    obtain ⟨hs, hlinks₁⟩ := (staysBelow_rehearse l (h i List.mem_cons_self)).of_apply hrehearse
      (fun _ _ => trivial) hseat hlinks
    have hseat₁ := hseat.of_sameAround hs
    intro i' hi'
    rcases List.mem_cons.1 hi' with rfl | hi'
    · exact ⟨b₁.tree, hseat₁, hlinks₁, hthere⟩
    · exact ih (fun i' hi' => h i' (List.mem_cons_of_mem _ hi')) hseat₁ hlinks₁ hrest i' hi'

/-- What the rehearsal of invocations changes is on the way to their outputs. -/
theorem works_invocations {d : Library} {places : List String → Prop} (l : Library)
    (h : ∀ i ∈ is, i.At s d places) : Works s.settings.buildRoot B j
      (fun y => y <+: [d.name ++ "-build"] ∨ ∃ names, places names ∧ y <+: (d.name ++ "-build") :: names)
      (fun y => ∃ names, places names ∧ y = (d.name ++ "-build") :: names) (is.forM (rehearse l)) :=
  Keeps.forM fun i hi => works_rehearse l (h i hi)

end Run

end Sysroot

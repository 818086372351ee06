import Sysroot.Proofs.Effect
import Sysroot.Run.Bench

/-!
# What the journal tells about the libraries of a run

Every change of a library's state is an event, so the journal of a run is the history of its
libraries: `visited` reads off it the states that a library went through, and replaying it
gives the states on the bench (`Bench.After`).

`Work.Takes` says how far some work takes one library, and that it leaves the others where
they are.  Most work takes no library anywhere (`Work.Still`); both are closed under doing one
thing after another.
-/

namespace Sysroot

/-! ## Reading the journal -/

/-- The library that an event moves, with the state it enters. -/
def Event.move? : Event → Option (Library × LibraryState)
  | .transition l _ after => some (l, after)
  | _ => none

namespace History

/-- The states that a library enters, in order. -/
def entered (es : List Event) (l : Library) : List LibraryState :=
  es.filterMap fun e => e.move?.bind fun m => if m.1 = l then some m.2 else none

/-- The states that a pending library goes through, in order. -/
def visited (es : List Event) (l : Library) : List LibraryState := .pending :: entered es l

/-- Where a library that was pending stands in the end. -/
def standing (es : List Event) (l : Library) : LibraryState := (entered es l).getLast?.getD .pending

/-- The states of the libraries after events. -/
def replay (es : List Event) (m : OrderedMap Library LibraryState) :
    OrderedMap Library LibraryState :=
  es.foldl (fun m e => (e.move?.map fun p => m.insert p.1 p.2).getD m) m

/-- Whether events move no library but one. -/
def Only (l : Library) (es : List Event) : Prop :=
  ∀ e ∈ es, ∀ p, e.move? = some p → p.1 = l

/-- Whether events move no library. -/
def Quiet (es : List Event) : Prop := ∀ e ∈ es, e.move? = none

/-- Whether no library fails in events. -/
def Unfailed (es : List Event) : Prop := ∀ e ∈ es, ∀ l, e.move? ≠ some (l, .failed)

@[simp] theorem entered_nil (l : Library) : entered [] l = [] := rfl

@[simp] theorem entered_append (es es' : List Event) (l : Library) :
    entered (es ++ es') l = entered es l ++ entered es' l :=
  List.filterMap_append

theorem entered_transition (l l' : Library) (before after : LibraryState) :
    entered [.transition l before after] l' = if l = l' then [after] else [] := by
  by_cases h : l = l' <;> simp [entered, Event.move?, h]

/-- Events that move one library only take no other anywhere. -/
theorem Only.entered_eq_nil {l l' : Library} {es : List Event} (h : Only l es) (hne : l' ≠ l) :
    entered es l' = [] := by
  refine List.filterMap_eq_nil_iff.2 fun e he => ?_
  cases hm : e.move? with
  | none => rfl
  | some p =>
    have hp : p.1 = l := h e he p hm
    simp only [Option.bind_some, ite_eq_right_iff, reduceCtorEq, imp_false, hp]
    exact Ne.symm hne

theorem Only.append {l : Library} {es es' : List Event} (h : Only l es) (h' : Only l es') :
    Only l (es ++ es') := fun e he =>
  (List.mem_append.1 he).elim (h e) (h' e)

theorem quiet_nil : Quiet [] := fun _ he => absurd he List.not_mem_nil

theorem Quiet.append {es es' : List Event} (h : Quiet es) (h' : Quiet es') :
    Quiet (es ++ es') := fun e he =>
  (List.mem_append.1 he).elim (h e) (h' e)

theorem Quiet.only {es : List Event} (h : Quiet es) (l : Library) : Only l es := by
  intro e he p hp
  rw [h e he] at hp
  cases hp

theorem Quiet.entered_eq_nil {es : List Event} (h : Quiet es) (l : Library) :
    entered es l = [] := by
  refine List.filterMap_eq_nil_iff.2 fun e he => ?_
  rw [h e he]
  rfl

theorem Quiet.unfailed {es : List Event} (h : Quiet es) : Unfailed es := by
  intro e he l hmove
  rw [h e he] at hmove
  cases hmove

/-- A library stands where it stood when events take it nowhere. -/
theorem standing_append_of_nil {es es' : List Event} {l : Library} (h : entered es' l = []) :
    standing (es ++ es') l = standing es l := by
  rw [standing, standing, entered_append, h, List.append_nil]

theorem Unfailed.append {es es' : List Event} (h : Unfailed es) (h' : Unfailed es') :
    Unfailed (es ++ es') := fun e he =>
  (List.mem_append.1 he).elim (h e) (h' e)

/-- Events that move one library only, and not to `failed`, contain no failure. -/
theorem Only.unfailed {l : Library} {es : List Event} (h : Only l es)
    (hl : .failed ∉ entered es l) : Unfailed es := by
  intro e he l' hmove
  have hl' : l' = l := h e he _ hmove
  subst hl'
  refine hl (List.mem_filterMap.2 ⟨e, he, ?_⟩)
  rw [hmove]
  simp

theorem replay_append (es es' : List Event) (m : OrderedMap Library LibraryState) :
    replay (es ++ es') m = replay es' (replay es m) :=
  List.foldl_append

/-- The state of a library after events is the last one it entered. -/
theorem find?_replay (es : List Event) (m : OrderedMap Library LibraryState) (l : Library) :
    (replay es m).find? l = (entered es l).getLast?.or (m.find? l) := by
  induction es generalizing m with
  | nil => rfl
  | cons e es ih =>
    rw [← List.singleton_append, replay_append, ih, entered_append]
    cases hm : e.move? with
    | none =>
      have hq : Quiet [e] := fun x hx => (List.mem_singleton.1 hx) ▸ hm
      rw [hq.entered_eq_nil, List.nil_append]
      simp [replay, hm]
    | some p =>
      have hfind : (replay [e] m).find? l = if l = p.1 then some p.2 else m.find? l := by
        rw [← OrderedMap.find?_insert]
        simp [replay, hm]
      have hent : entered [e] l = if p.1 = l then [p.2] else [] := by
        by_cases h : p.1 = l <;> simp [entered, hm, h]
      rw [hfind, hent, List.getLast?_append]
      by_cases h : p.1 = l
      · cases (entered es l).getLast? <;> simp [h]
      · cases (entered es l).getLast? <;> simp [h, Ne.symm h]

end History

open History

/-! ## Work and its events -/

variable {σ α β : Type}

/-- A bench comes from another one by events: the journal lists them, the states of the
libraries are those they lead to, and a request to stop is one of them. -/
structure Bench.After (b : Bench σ) (es : List Event) (b' : Bench σ) : Prop where
  journal : b'.journal = b.journal ++ es
  states : b'.states = replay es b.states
  cancelled : b'.cancelled = true → b.cancelled = true ∨ .cancelRequested ∈ es

namespace Bench.After

variable {b b' b'' : Bench σ} {es es' : List Event}

theorem refl (b : Bench σ) : b.After [] b :=
  ⟨(List.append_nil _).symm, rfl, .inl⟩

theorem trans (h : b.After es b') (h' : b'.After es' b'') : b.After (es ++ es') b'' where
  journal := by rw [h'.journal, h.journal, List.append_assoc]
  states := by rw [h'.states, h.states, replay_append]
  cancelled := by
    intro hc
    rcases h'.cancelled hc with hc' | hes
    · rcases h.cancelled hc' with hb | hes
      · exact .inl hb
      · exact .inr (List.mem_append_left _ hes)
    · exact .inr (List.mem_append_right _ hes)

/-- An event that moves no library leaves the states as they are. -/
theorem note (b : Bench σ) {e : Event} (h : e.move? = none) : b.After [e] (b.note e) :=
  ⟨rfl, by simp [Bench.note, replay, h], .inl⟩

end Bench.After

namespace Work

/-- Work that moves no library. -/
def Still (x : Work σ α) : Prop :=
  ∀ b : Bench σ, ∃ es, b.After es (x b).2 ∧ Quiet es

/-- Work that takes one library through the states `full` when it succeeds, and through a
beginning of `partway` when it fails, and that moves no other library. -/
def Takes (x : Work σ α) (l : Library) (full partway : List LibraryState) : Prop :=
  ∀ b : Bench σ, ∃ es, b.After es (x b).2 ∧ Only l es ∧
    (∀ a, (x b).1 = .ok a → entered es l = full) ∧
    ∀ e, (x b).1 = .error e → entered es l <+: partway

theorem Still.takes {x : Work σ α} (h : Still x) (l : Library) : Takes x l [] [] := by
  intro b
  obtain ⟨es, hafter, hquiet⟩ := h b
  refine ⟨es, hafter, hquiet.only l, fun _ _ => hquiet.entered_eq_nil l, fun _ _ => ?_⟩
  exact List.prefix_nil.2 (hquiet.entered_eq_nil l)

/-- One thing after another takes a library through the states of both. -/
theorem Takes.bind {x : Work σ α} {f : α → Work σ β} {l : Library}
    {full partway full' partway' : List LibraryState} (hx : Takes x l full partway)
    (hpart : partway <+: full ++ partway') (hf : ∀ a, Takes (f a) l full' partway') :
    Takes (x >>= f) l (full ++ full') (full ++ partway') := by
  intro b
  obtain ⟨es, hafter, honly, hok, herror⟩ := hx b
  rcases hrun : x b with ⟨e | a, b'⟩
  · rw [Effect.bind_of_error hrun]
    rw [hrun] at hafter herror
    exact ⟨es, hafter, honly, ⟨nofun, fun _ _ => (herror e rfl).trans hpart⟩⟩
  · rw [Effect.bind_of_ok hrun]
    rw [hrun] at hafter hok
    obtain ⟨es', hafter', honly', hok', herror'⟩ := hf a b'
    refine ⟨es ++ es', hafter.trans hafter', honly.append honly', ?_, ?_⟩
    · intro c hc
      rw [entered_append, hok a rfl, hok' c hc]
    · intro e he
      rw [entered_append, hok a rfl]
      exact (List.prefix_append_right_inj full).2 (herror' e he)

/-- What is done before does not count when it moves no library. -/
theorem Still.bind_takes {x : Work σ α} {f : α → Work σ β} {l : Library}
    {full partway : List LibraryState} (hx : Still x) (hf : ∀ a, Takes (f a) l full partway) :
    Takes (x >>= f) l full partway :=
  (hx.takes l).bind List.nil_prefix hf

theorem after_enter (l : Library) (s : LibraryState) (b : Bench σ) :
    b.After [.transition l (b.stateOf l) s] (enter l s b).2 :=
  ⟨rfl, rfl, .inl⟩

theorem only_transition (l : Library) (before after : LibraryState) :
    Only l [.transition l before after] := by
  intro e he p hp
  rw [List.mem_singleton] at he
  rw [he] at hp
  cases hp
  rfl

theorem takes_enter (l : Library) (s : LibraryState) :
    Takes (enter l s : Work σ Unit) l [s] [] := by
  intro b
  refine ⟨_, after_enter l s b, only_transition l _ s, fun _ _ => ?_, fun _ he => by cases he⟩
  rw [entered_transition, if_pos rfl]

/-- Work that ends by entering a state does not fail there. -/
theorem takes_enter_pure (l : Library) (s : LibraryState) (a : α) :
    Takes (enter l s >>= fun _ => pure a : Work σ α) l [s] [] := by
  intro b
  refine ⟨_, after_enter l s b, only_transition l _ s, fun _ _ => ?_, fun _ he => by cases he⟩
  rw [entered_transition, if_pos rfl]

/-- Entering a state never fails, so what follows it fails in that state at the earliest. -/
theorem Takes.enter_bind {f : Unit → Work σ α} {l : Library} {s : LibraryState}
    {full partway : List LibraryState} (hf : Takes (f ()) l full partway) (b : Bench σ) :
    ∃ es, b.After es ((enter l s >>= f) b).2 ∧ Only l es ∧
      (∀ a, ((enter l s >>= f) b).1 = .ok a → entered es l = s :: full) ∧
      ∀ e, ((enter l s >>= f) b).1 = .error e →
        ∃ way, way <+: partway ∧ entered es l = s :: way := by
  obtain ⟨es, hafter, honly, hok, herror⟩ := hf (enter l s b).2
  have hrun : (enter l s >>= f) b = f () (enter l s b).2 := Effect.bind_of_ok rfl
  rw [hrun]
  refine ⟨_, (after_enter l s b).trans hafter, (only_transition l _ s).append honly, ?_, ?_⟩
  · intro a ha
    rw [entered_append, entered_transition, if_pos rfl, hok a ha]
    rfl
  · intro e he
    refine ⟨_, herror e he, ?_⟩
    rw [entered_append, entered_transition, if_pos rfl]
    rfl

/-! ## Work that moves no library -/

theorem still_pure (a : α) : Still (pure a : Work σ α) := fun b =>
  ⟨[], .refl b, fun e he => by cases he⟩

theorem Still.bind {x : Work σ α} {f : α → Work σ β} (hx : Still x) (hf : ∀ a, Still (f a)) :
    Still (x >>= f) := by
  intro b
  obtain ⟨es, hafter, hquiet⟩ := hx b
  rcases hrun : x b with ⟨e | a, b'⟩
  · rw [Effect.bind_of_error hrun]
    rw [hrun] at hafter
    exact ⟨es, hafter, hquiet⟩
  · rw [Effect.bind_of_ok hrun]
    rw [hrun] at hafter
    obtain ⟨es', hafter', hquiet'⟩ := hf a b'
    exact ⟨es ++ es', hafter.trans hafter', hquiet.append hquiet'⟩

theorem still_throw (e : Fault) : Still (throw e : Work σ α) := fun b =>
  ⟨[], .refl b, fun e he => by cases he⟩

theorem still_get : Still (get : Work σ (Bench σ)) := fun b =>
  ⟨[], .refl b, fun e he => by cases he⟩

theorem still_note {e : Event} (h : e.move? = none) : Still (note e : Work σ Unit) := fun b =>
  ⟨[e], .note b h, fun _ hx => (List.mem_singleton.1 hx) ▸ h⟩

theorem still_ofExcept (x : Except Fault α) : Still (ofExcept x : Work σ α) := by
  cases x with
  | error e => exact still_throw e
  | ok a => exact still_pure a

theorem ofExcept_ok {x : Except Fault α} {b b' : Bench σ} {a : α}
    (h : (ofExcept x : Work σ α) b = (.ok a, b')) : x = .ok a ∧ b' = b := by
  cases x with
  | error e => cases h
  | ok a' =>
    cases h
    exact ⟨rfl, rfl⟩

/-- An action on the tree changes nothing else on the bench. -/
theorem after_onTree (x : Tree.Action α) (b : Bench σ) : b.After [] (onTree x b).2 :=
  ⟨(List.append_nil _).symm, rfl, .inl⟩

/-- An action on the tree is carried out on the tree of the bench. -/
theorem onTree_eq {x : Tree.Action α} {b b' : Bench σ} {r : Except Fault α}
    (h : onTree x b = (r, b')) : x b.tree = (r, b'.tree) ∧ b' = { b with tree := b'.tree } := by
  cases h
  exact ⟨rfl, rfl⟩

theorem after_of_onTree {x : Tree.Action α} {b b' : Bench σ} {r : Except Fault α}
    (h : onTree x b = (r, b')) : b.After [] b' := by
  have hafter := after_onTree x b
  rw [h] at hafter
  exact hafter

theorem still_onTree (x : Tree.Action α) : Still (onTree x : Work σ α) := fun b =>
  ⟨[], after_onTree x b, fun e he => by cases he⟩

theorem still_ask (f : Tree → Except Fault α) : Still (ask f : Work σ α) :=
  still_get.bind fun _ => still_ofExcept _

theorem still_unlessCancelled (l : Library) : Still (unlessCancelled l : Work σ Unit) := by
  refine still_get.bind fun b => ?_
  split
  · exact still_throw _
  · exact still_pure _

/-- Running an invocation moves no library, whatever the runner does, and when the build was
asked to stop meanwhile there is an event for it. -/
theorem still_run (r : Runner σ) (i : Invocation) : Still (run r i) := by
  intro b
  by_cases hstop : (r.run i b.tree b.memory).stopAsked = true
  · refine ⟨[.cancelRequested], ⟨?_, ?_, fun _ => .inr List.mem_cons_self⟩, ?_⟩
    · simp [run, hstop, Bench.cancel, Bench.note]
    · simp [run, hstop, Bench.cancel, Bench.note, replay, Event.move?]
    · intro e he
      rw [List.mem_singleton] at he
      rw [he]
      rfl
  · refine ⟨[], ⟨?_, ?_, ?_⟩, fun e he => by cases he⟩
    · simp [run, hstop]
    · simp [run, hstop, replay]
    · intro hc
      simp only [run, hstop, Bool.false_eq_true, if_false] at hc
      exact .inl hc

theorem still_forM {γ : Type} (l : List γ) {f : γ → Work σ PUnit} (hf : ∀ a, Still (f a)) :
    Still (l.forM f) := by
  induction l with
  | nil => exact still_pure _
  | cons a l ih => exact (hf a).bind fun _ => ih

end Work

end Sysroot

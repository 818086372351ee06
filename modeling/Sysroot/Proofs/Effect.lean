import Mathlib

/-!
# Running computations that may fail

Actions on a file tree and work on a bench are both functions from a state to an outcome and
a state: a computation that fails keeps the state it reached.  The equations below run the
parts from which all of them are made, and the inversion lemmas take a run of a sequence
apart.
-/

namespace Sysroot.Effect

variable {ε σ α β : Type}

/-- What a sequence does: the first part, and the second one from the state that the first
leaves, unless the first fails. -/
theorem bind_apply (x : ExceptT ε (StateM σ) α) (f : α → ExceptT ε (StateM σ) β) (s : σ) :
    (x >>= f) s = match x s with
      | (.ok a, s') => f a s'
      | (.error e, s') => (.error e, s') := by
  show (ExceptT.bindCont f (x s).1) (x s).2 = _
  rcases x s with ⟨_ | _, s'⟩ <;> rfl

@[simp] theorem pure_apply (a : α) (s : σ) :
    (pure a : ExceptT ε (StateM σ) α) s = (.ok a, s) := rfl

@[simp] theorem throw_apply (e : ε) (s : σ) :
    (throw e : ExceptT ε (StateM σ) α) s = (.error e, s) := rfl

@[simp] theorem get_apply (s : σ) : (get : ExceptT ε (StateM σ) σ) s = (.ok s, s) := rfl

@[simp] theorem modify_apply (f : σ → σ) (s : σ) :
    (modify f : ExceptT ε (StateM σ) PUnit) s = (.ok ⟨⟩, f s) := rfl

/-- What catching does: the handler runs from the state that the failure leaves. -/
theorem tryCatch_apply (x : ExceptT ε (StateM σ) α) (handle : ε → ExceptT ε (StateM σ) α)
    (s : σ) : (tryCatch x handle) s = match x s with
      | (.ok a, s') => (.ok a, s')
      | (.error e, s') => handle e s' := by
  rcases h : x s with ⟨_ | _, s'⟩ <;>
    simp [tryCatch, tryCatchThe, MonadExceptOf.tryCatch, ExceptT.tryCatch, ExceptT.mk, bind,
      StateT.bind, h, pure, StateT.pure]

theorem bind_of_ok {x : ExceptT ε (StateM σ) α} {f : α → ExceptT ε (StateM σ) β} {s s' : σ}
    {a : α} (h : x s = (.ok a, s')) : (x >>= f) s = f a s' := by
  rw [bind_apply, h]

theorem bind_of_error {x : ExceptT ε (StateM σ) α} {f : α → ExceptT ε (StateM σ) β} {s s' : σ}
    {e : ε} (h : x s = (.error e, s')) : (x >>= f) s = (.error e, s') := by
  rw [bind_apply, h]

/-- A sequence that succeeds does so in both parts. -/
theorem bind_ok {x : ExceptT ε (StateM σ) α} {f : α → ExceptT ε (StateM σ) β} {s s'' : σ}
    {b : β} (h : (x >>= f) s = (.ok b, s'')) :
    ∃ a s', x s = (.ok a, s') ∧ f a s' = (.ok b, s'') := by
  rw [bind_apply] at h
  rcases hx : x s with ⟨e | a, s'⟩
  · rw [hx] at h
    cases h
  · rw [hx] at h
    exact ⟨a, s', rfl, h⟩

/-- A sequence that fails does so in its first part, or in the second after the first. -/
theorem bind_error {x : ExceptT ε (StateM σ) α} {f : α → ExceptT ε (StateM σ) β} {s s'' : σ}
    {e : ε} (h : (x >>= f) s = (.error e, s'')) :
    x s = (.error e, s'') ∨ ∃ a s', x s = (.ok a, s') ∧ f a s' = (.error e, s'') := by
  rw [bind_apply] at h
  rcases hx : x s with ⟨e' | a, s'⟩
  · rw [hx] at h
    cases h
    exact .inl rfl
  · rw [hx] at h
    exact .inr ⟨a, s', rfl, h⟩

/-! ## Without a state -/

theorem except_ok_bind (a : α) (f : α → Except ε β) : (Except.ok a >>= f) = f a := rfl

/-- A sequence of computations without a state succeeds in both parts. -/
theorem except_bind_ok {x : Except ε α} {f : α → Except ε β} {b : β}
    (h : (x >>= f) = .ok b) : ∃ a, x = .ok a ∧ f a = .ok b := by
  cases x with
  | error e => cases h
  | ok a => exact ⟨a, rfl, h⟩

theorem except_bind_error {x : Except ε α} {f : α → Except ε β} {e : ε}
    (h : (x >>= f) = .error e) : x = .error e ∨ ∃ a, x = .ok a ∧ f a = .error e := by
  cases x with
  | error e' =>
    obtain rfl : e' = e := Except.error.inj (show (Except.error e' : Except ε β) = .error e from h)
    exact .inl rfl
  | ok a => exact .inr ⟨a, rfl, h⟩

theorem except_bind_eq_ok_iff {x : Except ε α} {f : α → Except ε β} {b : β} :
    (x >>= f) = .ok b ↔ ∃ a, x = .ok a ∧ f a = .ok b := by
  refine ⟨except_bind_ok, ?_⟩
  rintro ⟨a, rfl, h⟩
  exact h

/-- A computation of which the result is known to be a value gives it. -/
theorem eq_of_toOption {x : Except ε α × σ} {a : α} (h : x.1.toOption = some a) :
    x = (.ok a, x.2) := by
  obtain ⟨_ | a', s⟩ := x
  · cases h
  · cases h
    rfl

theorem mapError_ok {ε' : Type} {x : Except ε α} {f : ε → ε'} {a : α}
    (h : x.mapError f = .ok a) : x = .ok a := by
  cases x with
  | error e => cases h
  | ok a' => exact congrArg _ (Except.ok.inj h)

theorem mapError_error {ε' : Type} {x : Except ε α} {f : ε → ε'} {e : ε'}
    (h : x.mapError f = .error e) : ∃ e₀, x = .error e₀ ∧ e = f e₀ := by
  cases x with
  | error e₀ => exact ⟨e₀, rfl, (Except.error.inj h).symm⟩
  | ok a => cases h

/-- What is kept passed the test. -/
theorem except_of_mem_filterM {f : α → Except ε Bool} {as kept : List α}
    (h : as.filterM f = .ok kept) {a : α} (ha : a ∈ kept) : f a = .ok true := by
  have haux : ∀ (as before kept : List α), as.filterAuxM f before = .ok kept →
      (∀ b ∈ before, f b = .ok true) → ∀ b ∈ kept, f b = .ok true := by
    intro as
    induction as with
    | nil =>
      intro before kept h hbefore
      cases h
      exact hbefore
    | cons a as ih =>
      intro before kept h hbefore
      obtain ⟨passed, hpassed, h⟩ := except_bind_ok h
      refine ih _ kept h fun b hb => ?_
      cases passed with
      | false => exact hbefore b hb
      | true => exact (List.mem_cons.1 hb).elim (fun heq => heq ▸ hpassed) (hbefore b)
  obtain ⟨reversed, hreversed, h⟩ := except_bind_ok h
  cases h
  exact haux as [] reversed hreversed nofun a (List.mem_reverse.1 ha)

/-- What a sequence of computations gives, one of them gave. -/
theorem except_exists_of_mem_mapM {f : α → Except ε β} {as : List α} {bs : List β}
    (h : as.mapM f = .ok bs) {b : β} (hb : b ∈ bs) : ∃ a ∈ as, f a = .ok b := by
  induction as generalizing bs with
  | nil =>
    rw [List.mapM_nil] at h
    cases h
    cases hb
  | cons a as ih =>
    rw [List.mapM_cons] at h
    obtain ⟨b', hb', h⟩ := except_bind_ok h
    obtain ⟨bs', hbs', h⟩ := except_bind_ok h
    cases h
    rcases List.mem_cons.1 hb with rfl | hb
    · exact ⟨a, List.mem_cons_self, hb'⟩
    · obtain ⟨a', ha', heq⟩ := ih hbs' hb
      exact ⟨a', List.mem_cons_of_mem a ha', heq⟩

/-- Computations over a list that agree where they succeed give the same. -/
theorem except_mapM_eq {f g : α → Except ε β} {as : List α} {bs cs : List β}
    (hf : as.mapM f = .ok bs) (hg : as.mapM g = .ok cs)
    (h : ∀ a ∈ as, ∀ b c, f a = .ok b → g a = .ok c → b = c) : bs = cs := by
  induction as generalizing bs cs with
  | nil =>
    rw [List.mapM_nil] at hf hg
    cases hf
    cases hg
    rfl
  | cons a as ih =>
    rw [List.mapM_cons] at hf hg
    obtain ⟨b, hb, hf⟩ := except_bind_ok hf
    obtain ⟨bs', hbs, hf⟩ := except_bind_ok hf
    obtain ⟨c, hc, hg⟩ := except_bind_ok hg
    obtain ⟨cs', hcs, hg⟩ := except_bind_ok hg
    cases hf
    cases hg
    rw [h a List.mem_cons_self b c hb hc,
      ih hbs hcs fun a' ha' => h a' (List.mem_cons_of_mem a ha')]

/-- When a sequence of computations succeeds, what each of them gives is among its results. -/
theorem except_mem_of_mapM {f : α → Except ε β} {as : List α} {bs : List β}
    (h : as.mapM f = .ok bs) {a : α} (ha : a ∈ as) : ∃ b ∈ bs, f a = .ok b := by
  induction as generalizing bs with
  | nil => cases ha
  | cons a' as ih =>
    rw [List.mapM_cons] at h
    obtain ⟨b', hb', h⟩ := except_bind_ok h
    obtain ⟨bs', hbs', h⟩ := except_bind_ok h
    cases h
    rcases List.mem_cons.1 ha with rfl | ha
    · exact ⟨b', List.mem_cons_self, hb'⟩
    · obtain ⟨b, hb, heq⟩ := ih hbs' ha
      exact ⟨b, List.mem_cons_of_mem b' hb, heq⟩

/-- What holds of all that one computation can give relates the inputs of a sequence of them and its
results both ways. -/
theorem except_mapM_relates {f : α → Except ε β} {as : List α} {bs : List β} {P : α → β → Prop}
    (h : as.mapM f = .ok bs) (hf : ∀ a b, f a = .ok b → P a b) :
    (∀ a ∈ as, ∃ b ∈ bs, P a b) ∧ ∀ b ∈ bs, ∃ a ∈ as, P a b := by
  refine ⟨fun a ha => ?_, fun b hb => ?_⟩
  · obtain ⟨b, hb, heq⟩ := except_mem_of_mapM h ha
    exact ⟨b, hb, hf a b heq⟩
  · obtain ⟨a, ha, heq⟩ := except_exists_of_mem_mapM h hb
    exact ⟨a, ha, hf a b heq⟩

/-- Computations over a list that all succeed give what each of them gives. -/
theorem except_mapM_of_ok {f : α → Except ε β} {g : α → β} {as : List α}
    (h : ∀ a ∈ as, f a = .ok (g a)) : as.mapM f = .ok (as.map g) := by
  induction as with
  | nil => rfl
  | cons a as ih =>
    rw [List.mapM_cons, h a List.mem_cons_self, except_ok_bind,
      ih fun a' ha' => h a' (List.mem_cons_of_mem a ha')]
    rfl

/-- A sequence of computations succeeds when each of them does, and gives what they give. -/
theorem except_mapM_eq_ok_iff {f : α → Except ε β} {as : List α} {bs : List β} :
    as.mapM f = .ok bs ↔ List.Forall₂ (fun a b => f a = .ok b) as bs := by
  refine ⟨fun h => ?_, fun h => ?_⟩
  · induction as generalizing bs with
    | nil =>
      rw [List.mapM_nil] at h
      cases h
      exact .nil
    | cons a as ih =>
      rw [List.mapM_cons] at h
      obtain ⟨b, hb, h⟩ := except_bind_ok h
      obtain ⟨bs', hbs, h⟩ := except_bind_ok h
      cases h
      exact .cons hb (ih hbs)
  · induction h with
    | nil => rfl
    | cons hb _ ih =>
      rw [List.mapM_cons, hb, except_ok_bind, ih]
      rfl

/-- What gives the same for each of a list gives the same for the list. -/
theorem except_mapM_congr {f g : α → Except ε β} {as : List α}
    (h : ∀ a ∈ as, f a = g a) : as.mapM f = as.mapM g := by
  induction as with
  | nil => rfl
  | cons a as ih =>
    rw [List.mapM_cons, List.mapM_cons, h a List.mem_cons_self,
      ih fun a' ha' => h a' (List.mem_cons_of_mem a ha')]

/-- A test that answers the same for each of a list keeps the same of it. -/
theorem except_filterM_congr {f g : α → Except ε Bool} {as : List α}
    (h : ∀ a ∈ as, f a = g a) : as.filterM f = as.filterM g := by
  have haux : ∀ before, as.filterAuxM f before = as.filterAuxM g before := by
    induction as with
    | nil => exact fun before => rfl
    | cons a as ih =>
      intro before
      rw [List.filterAuxM, List.filterAuxM, h a List.mem_cons_self]
      refine congrArg _ (funext fun kept => ih (fun a' ha' => h a' (List.mem_cons_of_mem a ha')) _)
  rw [List.filterM, List.filterM, haux]

/-- What is kept of a list includes each of it that answers with yes. -/
theorem except_mem_of_filterM {f : α → Except ε Bool} {as kept : List α}
    (h : as.filterM f = .ok kept) {a : α} (ha : a ∈ as) : ∃ b, f a = .ok b ∧ (b = true → a ∈ kept) := by
  have haux : ∀ (as before kept : List α), as.filterAuxM f before = .ok kept →
      (∀ b ∈ before, b ∈ kept) ∧ ∀ a ∈ as, ∃ b, f a = .ok b ∧ (b = true → a ∈ kept) := by
    intro as
    induction as with
    | nil =>
      intro before kept h
      cases h
      exact ⟨fun b hb => hb, nofun⟩
    | cons a' as ih =>
      intro before kept h
      obtain ⟨passed, hpassed, h⟩ := except_bind_ok h
      obtain ⟨hbefore, hothers⟩ := ih _ kept h
      refine ⟨fun b hb => hbefore b ?_, fun a ha => ?_⟩
      · cases passed with
        | false => exact hb
        | true => exact List.mem_cons_of_mem a' hb
      · rcases List.mem_cons.1 ha with rfl | ha
        · refine ⟨passed, hpassed, fun hyes => hbefore a ?_⟩
          rw [hyes]
          exact List.mem_cons_self
        · exact hothers a ha
  obtain ⟨reversed, hreversed, h⟩ := except_bind_ok h
  cases h
  obtain ⟨b, hb, hmem⟩ := (haux as [] reversed hreversed).2 a ha
  exact ⟨b, hb, fun hyes => List.mem_reverse.2 (hmem hyes)⟩

theorem except_filterM_of_ok {f : α → Except ε Bool} {g : α → Bool} {as : List α}
    (h : ∀ a ∈ as, f a = .ok (g a)) : as.filterM f = .ok (as.filter g) := by
  have haux : ∀ before, as.filterAuxM f before = .ok ((as.filter g).reverse ++ before) := by
    induction as with
    | nil => exact fun before => rfl
    | cons a as ih =>
      intro before
      rw [List.filterAuxM, h a List.mem_cons_self, except_ok_bind]
      cases ha : g a with
      | true =>
        rw [List.filter_cons_of_pos ha, List.reverse_cons, List.append_assoc]
        exact ih (fun a' ha' => h a' (List.mem_cons_of_mem _ ha')) (a :: before)
      | false =>
        rw [List.filter_cons_of_neg (by simp [ha])]
        exact ih (fun a' ha' => h a' (List.mem_cons_of_mem _ ha')) before
  rw [List.filterM, haux, except_ok_bind, List.append_nil, List.reverse_reverse]
  rfl

theorem except_filterM_of_false {f : α → Except ε Bool} {as : List α}
    (h : ∀ a ∈ as, f a = .ok false) : as.filterM f = .ok [] := by
  rw [except_filterM_of_ok h, List.filter_false]

/-! ## Going through a list with a check -/

/-- Going through a list with a check succeeds when the check does for each member. -/
theorem forIn_eq_ok_iff {check : α → Except ε (ForInStep PUnit)}
    (hyield : ∀ x s, check x = .ok s → s = .yield PUnit.unit) {xs : List α} :
    (forIn xs PUnit.unit fun x _ => check x) = .ok PUnit.unit ↔
      ∀ x ∈ xs, check x = .ok (.yield PUnit.unit) := by
  induction xs with
  | nil => exact ⟨fun _ => nofun, fun _ => rfl⟩
  | cons x xs ih =>
    rw [List.forIn_cons, List.forall_mem_cons]
    cases hx : check x with
    | error e => exact ⟨nofun, fun h => nomatch h.1⟩
    | ok s =>
      obtain rfl := hyield x s hx
      exact ih.trans ⟨fun h => ⟨rfl, h⟩, And.right⟩

/-- Refusing each member of a list with a property succeeds when no member has it. -/
theorem forIn_refuse_eq_ok_iff {P : α → Prop} [DecidablePred P] {why : α → ε}
    {xs : List α} :
    (forIn xs PUnit.unit fun x _ => do
        if P x then throw (why x)
        pure (ForInStep.yield PUnit.unit) : Except ε PUnit) = .ok PUnit.unit ↔
      ∀ x ∈ xs, ¬ P x := by
  refine (forIn_eq_ok_iff fun x s hs => ?_).trans (forall₂_congr fun x _ => ?_)
  · split at hs
    · cases hs
    · exact (Except.ok.inj hs).symm
  · split
    · rename_i hx
      exact ⟨nofun, fun h => absurd hx h⟩
    · rename_i hx
      exact ⟨fun _ => hx, fun _ => rfl⟩

/-! ## Which failures there are -/

/-- Whether each failure of a computation is of a kind, given the state that it leaves. -/
def FailsOnly (Q : σ → ε → Prop) (x : ExceptT ε (StateM σ) α) : Prop :=
  ∀ s e s', x s = (.error e, s') → Q s' e

variable {Q Q' : σ → ε → Prop}

theorem failsOnly_pure (a : α) : FailsOnly Q (pure a : ExceptT ε (StateM σ) α) := nofun

theorem failsOnly_get : FailsOnly Q (get : ExceptT ε (StateM σ) σ) := nofun

namespace FailsOnly

theorem of_apply {x : ExceptT ε (StateM σ) α} (hx : FailsOnly Q x) {s s' : σ} {e : ε}
    (h : x s = (.error e, s')) : Q s' e := hx s e s' h

theorem mono {x : ExceptT ε (StateM σ) α} (hx : FailsOnly Q x) (h : ∀ s e, Q s e → Q' s e) :
    FailsOnly Q' x := fun s e s' heq => h s' e (hx s e s' heq)

theorem bind {x : ExceptT ε (StateM σ) α} {f : α → ExceptT ε (StateM σ) β} (hx : FailsOnly Q x)
    (hf : ∀ a, FailsOnly Q (f a)) : FailsOnly Q (x >>= f) := by
  intro s e s' h
  rcases bind_error h with h | ⟨a, s₁, -, h⟩
  · exact hx s e s' h
  · exact hf a s₁ e s' h

/-- What comes after a test that may fail. -/
theorem guard {c : Prop} [Decidable c] {x : ExceptT ε (StateM σ) PUnit}
    {f : PUnit → ExceptT ε (StateM σ) β} (hx : FailsOnly Q x) (hf : ∀ u, FailsOnly Q (f u)) :
    FailsOnly Q (if c then x >>= f else f ⟨⟩) := by
  split
  · exact hx.bind hf
  · exact hf _

theorem map {x : ExceptT ε (StateM σ) α} (f : α → β) (hx : FailsOnly Q x) :
    FailsOnly Q (f <$> x) :=
  hx.bind fun a => failsOnly_pure (f a)

theorem forM {f : α → ExceptT ε (StateM σ) PUnit} {as : List α}
    (hf : ∀ a ∈ as, FailsOnly Q (f a)) : FailsOnly Q (as.forM f) := by
  induction as with
  | nil => exact failsOnly_pure _
  | cons a as ih =>
    exact (hf a List.mem_cons_self).bind fun _ => ih fun x hx => hf x (List.mem_cons_of_mem a hx)

theorem mapM {f : α → ExceptT ε (StateM σ) β} (hf : ∀ a, FailsOnly Q (f a)) (as : List α) :
    FailsOnly Q (as.mapM f) := by
  induction as with
  | nil =>
    rw [List.mapM_nil]
    exact failsOnly_pure _
  | cons a as ih =>
    rw [List.mapM_cons]
    exact (hf a).bind fun b => ih.bind fun bs => failsOnly_pure _

theorem filterM {f : α → ExceptT ε (StateM σ) Bool} (hf : ∀ a, FailsOnly Q (f a)) (as : List α) :
    FailsOnly Q (as.filterM f) := by
  have haux : ∀ as kept : List α, FailsOnly Q (as.filterAuxM f kept) := by
    intro as
    induction as with
    | nil => exact fun kept => failsOnly_pure _
    | cons a as ih => exact fun kept => (hf a).bind fun b => ih _
  exact (haux as []).bind fun as => failsOnly_pure _

end FailsOnly

/-- Whether each failure of a computation without a state is of a kind. -/
def FailsBy (P : ε → Prop) (x : Except ε α) : Prop := ∀ e, x = .error e → P e

variable {P P' : ε → Prop}

theorem failsBy_ok (a : α) : FailsBy P (.ok a : Except ε α) := nofun

theorem failsBy_error {e : ε} (h : P e) : FailsBy P (.error e : Except ε α) := fun _ heq =>
  Except.error.inj heq ▸ h

namespace FailsBy

theorem mono {x : Except ε α} (hx : FailsBy P x) (h : ∀ e, P e → P' e) : FailsBy P' x :=
  fun e heq => h e (hx e heq)

theorem bind_ok {x : Except ε α} {f : α → Except ε β} (hx : FailsBy P x)
    (hf : ∀ a, x = .ok a → FailsBy P (f a)) : FailsBy P (x >>= f) := by
  intro e h
  rcases except_bind_error h with h | ⟨a, ha, h⟩
  · exact hx e h
  · exact hf a ha e h

theorem bind {x : Except ε α} {f : α → Except ε β} (hx : FailsBy P x)
    (hf : ∀ a, FailsBy P (f a)) : FailsBy P (x >>= f) :=
  hx.bind_ok fun a _ => hf a

/-- What comes after a test that may fail. -/
theorem guard {c : Prop} [Decidable c] {x : Except ε PUnit} {f : PUnit → Except ε β}
    (hx : FailsBy P x) (hf : ∀ u, FailsBy P (f u)) : FailsBy P (if c then x >>= f else f ⟨⟩) := by
  split
  · exact hx.bind hf
  · exact hf _

theorem map {x : Except ε α} (f : α → β) (hx : FailsBy P x) : FailsBy P (f <$> x) := by
  cases x with
  | error e => exact failsBy_error (hx e rfl)
  | ok a => exact failsBy_ok (f a)

theorem mapError {ε' : Type} {P' : ε' → Prop} {x : Except ε α} {f : ε → ε'} (hx : FailsBy P x)
    (h : ∀ e, P e → P' (f e)) : FailsBy P' (x.mapError f) := by
  intro e heq
  obtain ⟨e₀, h₀, rfl⟩ := mapError_error heq
  exact h e₀ (hx e₀ h₀)

theorem mapM {f : α → Except ε β} {as : List α} (hf : ∀ a ∈ as, FailsBy P (f a)) :
    FailsBy P (as.mapM f) := by
  induction as with
  | nil =>
    rw [List.mapM_nil]
    exact failsBy_ok _
  | cons a as ih =>
    rw [List.mapM_cons]
    exact (hf a List.mem_cons_self).bind fun b =>
      (ih fun x hx => hf x (List.mem_cons_of_mem a hx)).bind fun bs => failsBy_ok _

theorem filterM {f : α → Except ε Bool} {as : List α} (hf : ∀ a ∈ as, FailsBy P (f a)) :
    FailsBy P (as.filterM f) := by
  have haux : ∀ kept : List α, FailsBy P (as.filterAuxM f kept) := by
    induction as with
    | nil => exact fun kept => failsBy_ok _
    | cons a as ih =>
      exact fun kept => (hf a List.mem_cons_self).bind fun b =>
        ih (fun x hx => hf x (List.mem_cons_of_mem a hx)) _
  exact (haux []).bind fun as => failsBy_ok _

theorem forIn {f : α → PUnit → Except ε (ForInStep PUnit)} {as : List α}
    (hf : ∀ a, FailsBy P (f a ⟨⟩)) : FailsBy P (forIn as PUnit.unit f) := by
  induction as with
  | nil => exact failsBy_ok _
  | cons a as ih =>
    rw [List.forIn_cons]
    refine (hf a).bind fun step => ?_
    cases step with
    | done u => exact failsBy_ok _
    | yield u => exact ih

end FailsBy

/-! ## How the state changes -/

/-- Whether a computation leaves a state in a relation to the one before, unless it fails and the
failure is not of a kind. -/
def Keeps (P : ε → Prop) (Rel : σ → σ → Prop) (x : ExceptT ε (StateM σ) α) : Prop :=
  ∀ s, (∀ e, (x s).1 = .error e → P e) → Rel s (x s).2

namespace Keeps

variable {Rel : σ → σ → Prop}

theorem of_apply {x : ExceptT ε (StateM σ) α} (hx : Keeps P Rel x) {s s' : σ} {r : Except ε α}
    (h : x s = (r, s')) (hr : ∀ e, r = .error e → P e) : Rel s s' := by
  have hrel := hx s
  rw [h] at hrel
  exact hrel hr

theorem mono {Rel' : σ → σ → Prop} {x : ExceptT ε (StateM σ) α} (hx : Keeps P Rel x)
    (hP : ∀ e, P' e → P e) (hRel : ∀ s s', Rel s s' → Rel' s s') : Keeps P' Rel' x :=
  fun s hs => hRel _ _ (hx s fun e he => hP e (hs e he))

/-- What leaves the state as it is keeps every relation that a state is in to itself. -/
theorem of_eq [Std.Refl Rel] {x : ExceptT ε (StateM σ) α} (h : ∀ s, (x s).2 = s) :
    Keeps P Rel x := by
  intro s _
  rw [h s]
  exact Std.Refl.refl s

variable [Trans Rel Rel Rel]

/-- What comes second matters only for the values that the first part gives. -/
theorem bind_of {x : ExceptT ε (StateM σ) α} {f : α → ExceptT ε (StateM σ) β} (hx : Keeps P Rel x)
    (hf : ∀ s a s', x s = (.ok a, s') → Keeps P Rel (f a)) : Keeps P Rel (x >>= f) := by
  intro s hs
  rw [bind_apply] at hs ⊢
  rcases hxs : x s with ⟨e | a, s₁⟩
  · simp only [hxs] at hs ⊢
    exact hx.of_apply hxs fun e' he' => hs e' (congrArg _ (Except.error.inj he'))
  · simp only [hxs] at hs ⊢
    exact Trans.trans (hx.of_apply hxs nofun) (hf s a s₁ hxs s₁ hs)

theorem bind {x : ExceptT ε (StateM σ) α} {f : α → ExceptT ε (StateM σ) β} (hx : Keeps P Rel x)
    (hf : ∀ a, Keeps P Rel (f a)) : Keeps P Rel (x >>= f) :=
  hx.bind_of fun _ a _ _ => hf a

theorem map [Std.Refl Rel] {x : ExceptT ε (StateM σ) α} (f : α → β) (hx : Keeps P Rel x) :
    Keeps P Rel (f <$> x) :=
  hx.bind fun _ => of_eq fun _ => rfl

theorem forM [Std.Refl Rel] {f : α → ExceptT ε (StateM σ) PUnit} {as : List α}
    (hf : ∀ a ∈ as, Keeps P Rel (f a)) : Keeps P Rel (as.forM f) := by
  induction as with
  | nil => exact of_eq fun _ => rfl
  | cons a as ih =>
    exact (hf a List.mem_cons_self).bind fun _ => ih fun x hx => hf x (List.mem_cons_of_mem a hx)

/-- What is done about the failures of a kind keeps the relation; the others are not caught. -/
theorem tryCatch {x : ExceptT ε (StateM σ) α} {handle : ε → ExceptT ε (StateM σ) α}
    (hx : Keeps P Rel x) (hcaught : ∀ e, P e → Keeps P Rel (handle e))
    (hpassed : ∀ e s, ¬ P e → ∃ e', (handle e s).1 = .error e' ∧ ¬ P e') :
    Keeps P Rel (tryCatch x handle) := by
  intro s hs
  rw [tryCatch_apply] at hs ⊢
  rcases hxs : x s with ⟨e | a, s₁⟩
  · simp only [hxs] at hs ⊢
    by_cases he : P e
    · exact Trans.trans (hx.of_apply hxs fun e' he' => Except.error.inj he' ▸ he)
        (hcaught e he s₁ hs)
    · obtain ⟨e', herror, he'⟩ := hpassed e s₁ he
      exact absurd (hs e' herror) he'
  · exact hx.of_apply hxs nofun

end Keeps

end Sysroot.Effect

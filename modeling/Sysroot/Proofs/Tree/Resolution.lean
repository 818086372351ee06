import Sysroot.Proofs.Tree.Operations
import Sysroot.Tree.Action

/-!
# Where components lead

Components that are names of directories lead straight on (`locateFrom_append`), and a path
through something else than a directory leads nowhere.  What a longer path leads to depends on
where its beginning leads (`locateFrom_parent`), and a path that leads to something in a tree
leads there in every larger tree (`locateFrom_of_within`).

A walk that meets no overlong name is never refused for one (`locateFrom_ne_nameTooLong`); for
that, the names in the targets of links must fit too.
-/

namespace Sysroot.Tree

variable {t t' : Tree} {aim : Aim} {k : Nat} {here l d : Location} {names rest : List String}
  {name : String}

/-! ## Names -/

/-- Whether components are names that something can have. -/
def Plain (names : List String) : Prop := ∀ name ∈ names, isName name = true

instance (names : List String) : Decidable (Plain names) :=
  inferInstanceAs (Decidable (∀ name ∈ names, isName name = true))

@[simp] theorem plain_nil : Plain [] := fun _ h => absurd h List.not_mem_nil

@[simp] theorem plain_cons : Plain (name :: names) ↔ isName name = true ∧ Plain names :=
  List.forall_mem_cons

@[simp] theorem plain_append : Plain (names ++ rest) ↔ Plain names ∧ Plain rest :=
  List.forall_mem_append

/-- What there is below a location is there by names. -/
theorem plain_of_get? {n : Node} (h : t.get? (l ++ names) = some n) : Plain names :=
  fun name hname => isName_of_get? h name (List.mem_append_right l hname)

/-- Whether no component is too long for a name. -/
def Fit (names : List String) : Prop := ∀ name ∈ names, name.utf8ByteSize ≤ nameLimit

theorem isName_iff : isName name = true ↔
    (name ≠ "" ∧ name ≠ "." ∧ name ≠ "..") ∧ name.utf8ByteSize ≤ nameLimit ∧
      '/' ∉ name.toList ∧ '\x00' ∉ name.toList := by
  simp only [isName, Bool.and_eq_true, decide_eq_true_eq, ne_eq]
  tauto

theorem Plain.fit (h : Plain names) : Fit names := fun name hname =>
  (isName_iff.1 (h name hname)).2.1

/-- Whether the targets of all links are texts that a link can have, without an overlong
name. -/
def TargetsFit (t : Tree) : Prop :=
  ∀ l target, t.get? l = some (.link target) → hasNull target = false ∧ Fit (textNames target)

/-! ## One step -/

theorem locateFrom_nil : locateFrom t aim k here [] = .ok here := by
  unfold locateFrom
  rfl

/-- A name of a directory leads into it. -/
theorem stretch_cons_dir (hname : isName name = true) (hrest : rest ≠ [""])
    (hdir : t.get? (here ++ [name]) = some .dir) :
    stretch t aim here (name :: rest) = stretch t aim (here ++ [name]) rest := by
  obtain ⟨⟨h1, h2, h3⟩, h4, -⟩ := isName_iff.1 hname
  have hhere : t.get? here = some .dir := get?_of_append hdir (List.cons_ne_nil _ _)
  rw [stretch, hhere]
  simp only [h1, h2, h3, hrest, or_self, and_false, if_false, Nat.not_lt.2 h4, hdir]

theorem locateFrom_cons_dir (hname : isName name = true) (hrest : rest ≠ [""])
    (hdir : t.get? (here ++ [name]) = some .dir) :
    locateFrom t aim k here (name :: rest) = locateFrom t aim k (here ++ [name]) rest := by
  unfold locateFrom
  rw [stretch_cons_dir hname hrest hdir]

theorem Plain.ne_slash (h : Plain rest) : rest ≠ [""] := by
  rintro rfl
  have hempty := (isName_iff.1 (h "" List.mem_cons_self)).1.1
  exact hempty rfl

/-- Names of directories lead straight on. -/
theorem locateFrom_append (hnames : Plain names) (hrest : Plain rest)
    (hdir : t.get? (here ++ names) = some .dir) :
    locateFrom t aim k here (names ++ rest) = locateFrom t aim k (here ++ names) rest := by
  induction names generalizing here with
  | nil => rw [List.nil_append, List.append_nil]
  | cons name names ih =>
    rw [plain_cons] at hnames
    have hsplit : here ++ name :: names = here ++ [name] ++ names := by simp
    rw [hsplit] at hdir ⊢
    have hnext : t.get? (here ++ [name]) = some .dir := by
      cases names with
      | nil => rwa [List.append_nil] at hdir
      | cons a names => exact get?_of_append hdir (List.cons_ne_nil a names)
    have hplain : Plain (names ++ rest) := plain_append.2 ⟨hnames.2, hrest⟩
    rw [List.cons_append, locateFrom_cons_dir hnames.1 hplain.ne_slash hnext]
    exact ih hnames.2 hdir

/-- Where the last component leads, if it is a name in a directory and no link is followed. -/
theorem locateFrom_last (hname : isName name = true) (hdir : t.get? here = some .dir)
    (hlink : aim = .itself ∨ ∀ target, t.get? (here ++ [name]) ≠ some (.link target)) :
    locateFrom t aim k here [name] = .ok (here ++ [name]) := by
  obtain ⟨⟨h1, h2, h3⟩, h4, -⟩ := isName_iff.1 hname
  unfold locateFrom
  rw [stretch, hdir]
  simp only [h1, h2, h3, or_self, if_false, Nat.not_lt.2 h4, List.nil_eq, and_false,
    List.cons_ne_nil]
  rcases hnode : t.get? (here ++ [name]) with _ | (_ | target | _)
  · rfl
  · simp [stretch]
  · rcases hlink with rfl | hlink
    · simp
    · exact absurd hnode (hlink target)
  · simp [stretch]

/-- Names of directories lead to the place in the last of them. -/
theorem locateFrom_concat (hplain : Plain (names ++ [name]))
    (hdir : t.get? (here ++ names) = some .dir)
    (hlink : aim = .itself ∨ ∀ target, t.get? (here ++ (names ++ [name])) ≠ some (.link target)) :
    locateFrom t aim k here (names ++ [name]) = .ok (here ++ (names ++ [name])) := by
  obtain ⟨hnames, hname⟩ := plain_append.1 hplain
  rw [← List.append_assoc] at hlink ⊢
  rw [locateFrom_append hnames hname hdir]
  exact locateFrom_last (hname name List.mem_cons_self) hdir hlink

/-- Below a free place in a directory nothing leads anywhere. -/
theorem locateFrom_of_free (hname : isName name = true) (hdir : t.get? here = some .dir)
    (hfree : t.get? (here ++ [name]) = none) (hrest : rest ≠ []) :
    locateFrom t .target k here (name :: rest) = .error .noEntry := by
  obtain ⟨⟨h1, h2, h3⟩, h4, -⟩ := isName_iff.1 hname
  unfold locateFrom
  rw [stretch, hdir]
  simp only [h1, h2, h3, or_self, reduceCtorEq, false_and, if_false, Nat.not_lt.2 h4, hfree, hrest]

/-! ## Beginnings of a walk -/

/-- What a stretch arrives at, with components before: those lead to a directory. -/
theorem stretch_append (t : Tree) (aim : Aim) (here : Location) (names : List String)
    (hrest : rest ≠ []) :
    (∀ l, stretch t aim here (names ++ rest) = .arrived l →
      ∃ d, stretch t .target here names = .arrived d ∧ t.get? d = some .dir) ∧
    ∀ h ns, stretch t aim here (names ++ rest) = .link h ns →
      (∃ d, stretch t .target here names = .arrived d ∧ t.get? d = some .dir) ∨
        ∃ ns', stretch t .target here names = .link h ns' ∧ ns = ns' ++ rest := by
  induction names generalizing here with
  | nil =>
    obtain ⟨name, more, rfl⟩ := List.exists_cons_of_ne_nil hrest
    have hdir : (∃ e, stretch t aim here (name :: more) = .refused e) ∨
        t.get? here = some .dir := by
      rcases hhere : t.get? here with _ | (_ | _ | _) <;> simp [stretch, hhere]
    rcases hdir with ⟨e, he⟩ | hdir
    · rw [List.nil_append, he]
      exact ⟨nofun, nofun⟩
    · exact ⟨fun _ _ => ⟨here, rfl, hdir⟩, fun _ _ _ => .inl ⟨here, rfl, hdir⟩⟩
  | cons name names ih =>
    rw [List.cons_append, stretch, stretch]
    rcases hhere : t.get? here with _ | (_ | _ | _)
    · exact ⟨nofun, nofun⟩
    · exact ⟨nofun, nofun⟩
    · exact ⟨nofun, nofun⟩
    simp only [List.append_eq_nil_iff, hrest, and_false, false_and, if_false, reduceCtorEq]
    by_cases hdot : name = "." ∨ name = ""
    · rw [if_pos hdot, if_pos hdot]
      exact ih _
    rw [if_neg hdot, if_neg hdot]
    by_cases hup : name = ".."
    · rw [if_pos hup, if_pos hup]
      exact ih _
    rw [if_neg hup, if_neg hup]
    by_cases hslash : aim = .newFile ∧ names ++ rest = [""]
    · rw [if_pos hslash]
      exact ⟨nofun, nofun⟩
    rw [if_neg hslash]
    by_cases hlong : nameLimit < name.utf8ByteSize
    · rw [if_pos hlong]
      exact ⟨nofun, nofun⟩
    rw [if_neg hlong, if_neg hlong]
    rcases hnode : t.get? (here ++ [name]) with _ | (_ | target | _)
    · exact ⟨nofun, nofun⟩
    · exact ih _
    · refine ⟨nofun, fun h ns heq => .inr ⟨textNames target ++ names, ?_, ?_⟩⟩
      · simp only [Stretch.link.injEq] at heq
        exact congrArg (Stretch.link · _) heq.1
      · simp only [Stretch.link.injEq] at heq
        rw [← heq.2, List.append_assoc]
    · exact ih _

/-- When components lead somewhere, those before them lead to a directory. -/
theorem locateFrom_parent (hrest : rest ≠ [])
    (h : locateFrom t aim k here (names ++ rest) = .ok l) :
    ∃ d, locateFrom t .target k here names = .ok d ∧ t.get? d = some .dir := by
  induction k generalizing here names with
  | zero =>
    obtain ⟨harrived, hlink⟩ := stretch_append t aim here names hrest
    unfold locateFrom at h ⊢
    rcases hs : stretch t aim here (names ++ rest) with l' | e | ⟨h', ns⟩
    · obtain ⟨d, hd, hdir⟩ := harrived l' hs
      rw [hd]
      exact ⟨d, rfl, hdir⟩
    · rw [hs] at h
      cases h
    · rw [hs] at h
      cases h
  | succ k ih =>
    obtain ⟨harrived, hlink⟩ := stretch_append t aim here names hrest
    unfold locateFrom at h ⊢
    rcases hs : stretch t aim here (names ++ rest) with l' | e | ⟨h', ns⟩
    · obtain ⟨d, hd, hdir⟩ := harrived l' hs
      rw [hd]
      exact ⟨d, rfl, hdir⟩
    · rw [hs] at h
      cases h
    · rw [hs] at h
      rcases hlink h' ns hs with ⟨d, hd, hdir⟩ | ⟨ns', hd, rfl⟩
      · rw [hd]
        exact ⟨d, rfl, hdir⟩
      · rw [hd]
        exact ih h

/-- What components lead to, with others after them: those lead on from a directory and come after
what a link stands for. -/
theorem stretch_onward (t : Tree) (aim : Aim) (here : Location) (names : List String)
    (hrest : rest ≠ []) (hslash : rest ≠ [""]) :
    (∀ d, stretch t .target here names = .arrived d → t.get? d = some .dir →
      stretch t aim here (names ++ rest) = stretch t aim d rest) ∧
    ∀ h ns, stretch t .target here names = .link h ns →
      stretch t aim here (names ++ rest) = .link h (ns ++ rest) := by
  induction names generalizing here with
  | nil =>
    refine ⟨fun d hd _ => ?_, nofun⟩
    cases hd
    rfl
  | cons name names ih =>
    rw [List.cons_append, stretch, stretch]
    rcases hhere : t.get? here with _ | (_ | _ | _)
    · exact ⟨nofun, nofun⟩
    · exact ⟨nofun, nofun⟩
    · exact ⟨nofun, nofun⟩
    simp only [List.append_eq_nil_iff, hrest, and_false, false_and, if_false, reduceCtorEq]
    by_cases hdot : name = "." ∨ name = ""
    · rw [if_pos hdot, if_pos hdot]
      exact ih _
    rw [if_neg hdot, if_neg hdot]
    by_cases hup : name = ".."
    · rw [if_pos hup, if_pos hup]
      exact ih _
    rw [if_neg hup, if_neg hup]
    have hnot : ¬ (aim = .newFile ∧ names ++ rest = [""]) := by
      rintro ⟨-, heq⟩
      rcases List.append_eq_singleton_iff.1 heq with ⟨-, hno⟩ | ⟨-, hno⟩
      · exact hslash hno
      · exact hrest hno
    rw [if_neg hnot]
    by_cases hlong : nameLimit < name.utf8ByteSize
    · rw [if_pos hlong]
      exact ⟨nofun, nofun⟩
    rw [if_neg hlong, if_neg hlong]
    rcases hnode : t.get? (here ++ [name]) with _ | (_ | target | _)
    · refine ⟨fun d hd hdir => ?_, fun h ns heq => ?_⟩
      · simp only [] at hd
        split at hd
        · cases hd
          rw [hnode] at hdir
          cases hdir
        · cases hd
      · simp only [] at heq
        split at heq
        · cases heq
        · cases heq
    · exact ih _
    · refine ⟨nofun, fun h ns heq => ?_⟩
      simp only [Stretch.link.injEq] at heq
      rw [← heq.1, ← heq.2, List.append_assoc]
    · exact ih _

/-- Components after others that lead to a directory lead on from there. -/
theorem locateFrom_onward (aim : Aim) (hrest : rest ≠ []) (hslash : rest ≠ [""])
    (h : locateFrom t .target k here names = .ok d) (hd : t.get? d = some .dir) :
    ∃ k', locateFrom t aim k here (names ++ rest) = locateFrom t aim k' d rest := by
  induction k generalizing here names with
  | zero =>
    obtain ⟨harrived, -⟩ := stretch_onward t aim here names hrest hslash
    refine ⟨0, ?_⟩
    unfold locateFrom at h ⊢
    rcases hs : stretch t .target here names with l' | e | ⟨h', ns⟩ <;> rw [hs] at h
    · cases h
      rw [harrived _ hs hd]
    · cases h
    · cases h
  | succ k ih =>
    obtain ⟨harrived, hlink⟩ := stretch_onward t aim here names hrest hslash
    rcases hs : stretch t .target here names with l' | e | ⟨h', ns⟩
    · unfold locateFrom at h
      rw [hs] at h
      cases h
      refine ⟨k + 1, ?_⟩
      unfold locateFrom
      rw [harrived _ hs hd]
    · unfold locateFrom at h
      rw [hs] at h
      cases h
    · unfold locateFrom at h
      rw [hs] at h
      obtain ⟨k', hk'⟩ := ih h
      refine ⟨k', hk' ▸ ?_⟩
      conv_lhs => unfold locateFrom
      rw [hlink _ _ hs]

/-! ## Larger trees -/

/-- Whether everything in a tree is in another one too, at the same place. -/
def Within (t t' : Tree) : Prop := ∀ l n, t.get? l = some n → t'.get? l = some n

theorem Within.refl (t : Tree) : t.Within t := fun _ _ h => h

theorem Within.trans {t'' : Tree} (h : t.Within t') (h' : t'.Within t'') : t.Within t'' :=
  fun l n hn => h' l n (h l n hn)

/-- In a larger tree a stretch goes as far as it did. -/
theorem stretch_of_within (aim : Aim) (here : Location) (names : List String)
    (hw : t.Within t') :
    (∀ d n, stretch t aim here names = .arrived d → t.get? d = some n →
      stretch t' aim here names = .arrived d) ∧
    ∀ h ns, stretch t aim here names = .link h ns → stretch t' aim here names = .link h ns := by
  induction names generalizing here with
  | nil => exact ⟨fun _ _ h _ => h, nofun⟩
  | cons name names ih =>
    rw [stretch, stretch]
    rcases hhere : t.get? here with _ | (_ | _ | _)
    · exact ⟨nofun, nofun⟩
    · exact ⟨nofun, nofun⟩
    · exact ⟨nofun, nofun⟩
    simp only [hw here _ hhere]
    by_cases hdot : name = "." ∨ name = ""
    · rw [if_pos hdot, if_pos hdot]
      exact ih _
    rw [if_neg hdot, if_neg hdot]
    by_cases hup : name = ".."
    · rw [if_pos hup, if_pos hup]
      exact ih _
    rw [if_neg hup, if_neg hup]
    by_cases hslash : aim = .newFile ∧ names = [""]
    · rw [if_pos hslash]
      exact ⟨nofun, nofun⟩
    rw [if_neg hslash, if_neg hslash]
    by_cases hlong : nameLimit < name.utf8ByteSize
    · rw [if_pos hlong]
      exact ⟨nofun, nofun⟩
    rw [if_neg hlong, if_neg hlong]
    rcases hnode : t.get? (here ++ [name]) with _ | (_ | target | _)
    · by_cases hlast : names = []
      · simp only [if_pos hlast]
        refine ⟨fun d n hd hn => ?_, nofun⟩
        cases hd
        rw [hnode] at hn
        cases hn
      · simp only [if_neg hlast]
        exact ⟨nofun, nofun⟩
    · simp only [hw _ _ hnode]
      exact ih _
    · simp only [hw _ _ hnode]
      exact ⟨fun _ _ h _ => h, fun _ _ h => h⟩
    · simp only [hw _ _ hnode]
      exact ih _

/-- What components lead to in a tree they lead to in every larger one. -/
theorem locateFrom_of_within {n : Node} (hw : t.Within t')
    (h : locateFrom t aim k here names = .ok d) (hn : t.get? d = some n) :
    locateFrom t' aim k here names = .ok d := by
  induction k generalizing here names with
  | zero =>
    obtain ⟨harrived, -⟩ := stretch_of_within aim here names hw
    unfold locateFrom at h ⊢
    rcases hs : stretch t aim here names with l' | e | ⟨h', ns⟩
    · rw [hs] at h
      cases h
      rw [harrived _ n hs hn]
    · rw [hs] at h
      cases h
    · rw [hs] at h
      cases h
  | succ k ih =>
    obtain ⟨harrived, hlink⟩ := stretch_of_within aim here names hw
    unfold locateFrom at h ⊢
    rcases hs : stretch t aim here names with l' | e | ⟨h', ns⟩
    · rw [hs] at h
      cases h
      rw [harrived _ n hs hn]
    · rw [hs] at h
      cases h
    · rw [hs] at h
      rw [hlink h' ns hs]
      exact ih h

/-! ## Overlong names -/

theorem stretch_fit (aim : Aim) (here : Location) (ht : t.TargetsFit) (hnames : Fit names) :
    stretch t aim here names ≠ .refused .nameTooLong ∧
      ∀ h ns, stretch t aim here names = .link h ns → Fit ns := by
  induction names generalizing here with
  | nil => exact ⟨nofun, nofun⟩
  | cons name names ih =>
    obtain ⟨hname, hnames⟩ := List.forall_mem_cons.1 hnames
    rw [stretch]
    rcases hhere : t.get? here with _ | (_ | _ | _)
    · exact ⟨nofun, nofun⟩
    · exact ⟨nofun, nofun⟩
    · exact ⟨nofun, nofun⟩
    by_cases hdot : name = "." ∨ name = ""
    · simp only [if_pos hdot]
      exact ih _ hnames
    simp only [if_neg hdot]
    by_cases hup : name = ".."
    · rw [if_pos hup]
      exact ih _ hnames
    rw [if_neg hup]
    by_cases hslash : aim = .newFile ∧ names = [""]
    · rw [if_pos hslash]
      exact ⟨nofun, nofun⟩
    rw [if_neg hslash, if_neg (Nat.not_lt.2 hname)]
    rcases hnode : t.get? (here ++ [name]) with _ | (_ | target | _)
    · by_cases hlast : names = []
      · simp [hlast]
      · simp [hlast]
    · exact ih _ hnames
    · by_cases hlast : names = [] ∧ aim = .itself
      · simp [hlast]
      · simp only [if_neg hlast]
        refine ⟨nofun, fun h ns heq => ?_⟩
        cases heq
        exact List.forall_mem_append.2 ⟨(ht _ _ hnode).2, hnames⟩
    · exact ih _ hnames

/-- A walk without overlong names is not refused for one. -/
theorem locateFrom_ne_nameTooLong (ht : t.TargetsFit) (hnames : Fit names) :
    locateFrom t aim k here names ≠ .error .nameTooLong := by
  induction k generalizing here names with
  | zero =>
    obtain ⟨hrefused, -⟩ := stretch_fit aim here ht hnames
    unfold locateFrom
    rcases hs : stretch t aim here names with l' | e | ⟨h', ns⟩
    · exact nofun
    · intro he
      cases he
      exact hrefused hs
    · exact nofun
  | succ k ih =>
    obtain ⟨hrefused, hlink⟩ := stretch_fit aim here ht hnames
    unfold locateFrom
    rcases hs : stretch t aim here names with l' | e | ⟨h', ns⟩
    · exact nofun
    · intro he
      cases he
      exact hrefused hs
    · exact ih (hlink h' ns hs)

/-- Among places without links plain names are never refused for being too long. -/
theorem stretch_of_no_link (aim : Aim) (hnames : Plain names)
    (hlinks : ∀ y target, t.get? (here ++ y) ≠ some (.link target)) :
    (∃ l, stretch t aim here names = .arrived l) ∨
      ∃ e, stretch t aim here names = .refused e ∧ e ≠ .nameTooLong := by
  induction names generalizing here with
  | nil => exact .inl ⟨here, rfl⟩
  | cons name names ih =>
    obtain ⟨hname, hnames⟩ := plain_cons.1 hnames
    obtain ⟨⟨h1, h2, h3⟩, h4, -⟩ := isName_iff.1 hname
    have hlinks' : ∀ y target, t.get? (here ++ [name] ++ y) ≠ some (.link target) := by
      intro y target
      rw [List.append_assoc]
      exact hlinks _ target
    have hnext := ih hnames hlinks'
    rw [stretch]
    rcases t.get? here with _ | (_ | _ | _)
    · exact .inr ⟨_, rfl, nofun⟩
    · exact .inr ⟨_, rfl, nofun⟩
    · exact .inr ⟨_, rfl, nofun⟩
    simp only [h1, h2, h3, or_self, if_false, hnames.ne_slash, and_false, Nat.not_lt.2 h4]
    rcases hnode : t.get? (here ++ [name]) with _ | (_ | target | _)
    · by_cases hlast : names = []
      · exact .inl ⟨_, if_pos hlast⟩
      · exact .inr ⟨_, if_neg hlast, nofun⟩
    · exact hnext
    · exact absurd hnode (hlinks _ target)
    · exact hnext

/-- Whether places below a location can be asked about: if there are links below it, the targets
of all links are texts without overlong names. -/
def Askable (t : Tree) (R : Location) : Prop :=
  ∀ y target, t.get? (R ++ y) = some (.link target) → t.TargetsFit

/-- What can be asked about can still be when all links were there before. -/
theorem Askable.of_links {R : Location} (h : t.Askable R)
    (hall : ∀ l target, t'.get? l = some (.link target) → ∃ l', t.get? l' = some (.link target))
    (hbelow : ∀ y target, t'.get? (R ++ y) = some (.link target) →
      ∃ y', t.get? (R ++ y') = some (.link target)) : t'.Askable R := by
  intro y target hy l target' hl
  obtain ⟨y', hy'⟩ := hbelow y target hy
  obtain ⟨l', hl'⟩ := hall l target' hl
  exact h y' target hy' l' target' hl'

theorem Askable.locateFrom_ne {R : Location} (h : t.Askable R) (hnames : Plain names) :
    locateFrom t aim k R names ≠ .error .nameTooLong := by
  by_cases hlinks : ∃ y target, t.get? (R ++ y) = some (.link target)
  · obtain ⟨y, target, hy⟩ := hlinks
    exact locateFrom_ne_nameTooLong (h y target hy) hnames.fit
  · push Not at hlinks
    unfold locateFrom
    rcases stretch_of_no_link aim hnames hlinks with ⟨l, hl⟩ | ⟨e, he, hne⟩
    · rw [hl]
      exact nofun
    · rw [he]
      exact fun heq => hne (Except.error.inj heq)

/-! ## Names with a NUL -/

/-- No name on the way to something has a NUL in it. -/
theorem stretch_null (t : Tree) (aim : Aim) (here : Location) (names : List String) :
    (∀ d n, stretch t aim here names = .arrived d → t.get? d = some n →
      ∀ name ∈ names, '\x00' ∉ name.toList) ∧
    ∀ h ns, stretch t aim here names = .link h ns → (∀ name ∈ ns, '\x00' ∉ name.toList) →
      ∀ name ∈ names, '\x00' ∉ name.toList := by
  induction names generalizing here with
  | nil => exact ⟨fun _ _ _ _ _ h => absurd h List.not_mem_nil, nofun⟩
  | cons name names ih =>
    have hcons : ∀ {here' : Location}, '\x00' ∉ name.toList →
        (∀ d n, stretch t aim here' names = .arrived d → t.get? d = some n →
          ∀ x ∈ name :: names, '\x00' ∉ x.toList) ∧
        ∀ h ns, stretch t aim here' names = .link h ns → (∀ x ∈ ns, '\x00' ∉ x.toList) →
          ∀ x ∈ name :: names, '\x00' ∉ x.toList := fun hname =>
      ⟨fun d n hd hn => List.forall_mem_cons.2 ⟨hname, (ih _).1 d n hd hn⟩,
        fun h ns hl hns => List.forall_mem_cons.2 ⟨hname, (ih _).2 h ns hl hns⟩⟩
    rw [stretch]
    rcases hhere : t.get? here with _ | (_ | _ | _)
    · exact ⟨nofun, nofun⟩
    · exact ⟨nofun, nofun⟩
    · exact ⟨nofun, nofun⟩
    by_cases hdot : name = "." ∨ name = ""
    · simp only [if_pos hdot]
      exact hcons (by rcases hdot with rfl | rfl <;> decide)
    simp only [if_neg hdot]
    by_cases hup : name = ".."
    · rw [if_pos hup]
      exact hcons (by rw [hup]; decide)
    rw [if_neg hup]
    by_cases hslash : aim = .newFile ∧ names = [""]
    · rw [if_pos hslash]
      exact ⟨nofun, nofun⟩
    rw [if_neg hslash]
    by_cases hlong : nameLimit < name.utf8ByteSize
    · rw [if_pos hlong]
      exact ⟨nofun, nofun⟩
    rw [if_neg hlong]
    have hnamed : ∀ {n : Node}, t.get? (here ++ [name]) = some n → '\x00' ∉ name.toList := by
      intro n hn
      exact (isName_iff.1 (isName_of_get? hn name (by simp))).2.2.2
    rcases hnode : t.get? (here ++ [name]) with _ | (_ | target | _)
    · by_cases hlast : names = []
      · simp only [if_pos hlast, Stretch.arrived.injEq, reduceCtorEq, false_implies, implies_true,
          and_true]
        rintro d n rfl hn
        rw [hnode] at hn
        cases hn
      · simp only [if_neg hlast]
        exact ⟨nofun, nofun⟩
    · exact hcons (hnamed hnode)
    · by_cases hlast : names = [] ∧ aim = .itself
      · simp only [if_pos hlast]
        refine ⟨fun _ _ _ _ => ?_, nofun⟩
        rw [hlast.1]
        exact List.forall_mem_cons.2 ⟨hnamed hnode, fun _ h => absurd h List.not_mem_nil⟩
      · simp only [if_neg hlast]
        refine ⟨nofun, fun h ns heq hns => List.forall_mem_cons.2 ⟨hnamed hnode, fun x hx => ?_⟩⟩
        cases heq
        exact hns x (List.mem_append_right _ hx)
    · exact hcons (hnamed hnode)

/-- A path to something has no NUL in it. -/
theorem locateFrom_null {d : Location} {n : Node} (h : locateFrom t aim k here names = .ok d)
    (hn : t.get? d = some n) : ∀ name ∈ names, '\x00' ∉ name.toList := by
  induction k generalizing here names with
  | zero =>
    obtain ⟨harrived, -⟩ := stretch_null t aim here names
    unfold locateFrom at h
    rcases hs : stretch t aim here names with l' | e | ⟨h', ns⟩ <;> rw [hs] at h
    · cases h
      exact harrived _ n hs hn
    · cases h
    · cases h
  | succ k ih =>
    obtain ⟨harrived, hlink⟩ := stretch_null t aim here names
    unfold locateFrom at h
    rcases hs : stretch t aim here names with l' | e | ⟨h', ns⟩ <;> rw [hs] at h
    · cases h
      exact harrived _ n hs hn
    · cases h
    · exact hlink h' ns hs (ih h)

end Sysroot.Tree

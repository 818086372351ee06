/-!
# File trees

A file tree is a value: a finite set of locations below the root, each holding a file, a
symbolic link or a directory, and every one of them inside a directory.  Links are not
followed here; a location is where something physically is.

Three operations change a tree, and `get?` is the view through which their effect is
stated:

* `set` puts a node at a location;
* `remove` takes a location away with everything below it;
* `move` brings a location with everything below it to another place.

Each leaves the tree alone when the result would not be a tree, so no caller can make one
with a file that is in no directory or with a name that no file can have.
-/

namespace Sysroot

/-- A place in a file tree: the names on the way from the root. -/
abbrev Location := List String

/-- How many bytes a name may have. -/
def Tree.nameLimit : Nat := 255

/-- Whether a text can be the name of something in a directory: it is not too long, has no
slash and no NUL in it, and is not empty, `.` or `..`, which stand for directories themselves. -/
def Tree.isName (s : String) : Bool :=
  s ≠ "" && s ≠ "." && s ≠ ".." && s.utf8ByteSize ≤ Tree.nameLimit && '/' ∉ s.toList &&
    '\x00' ∉ s.toList

/-- What can be at a location. -/
inductive Node where
  | file (content : List UInt8) (executable : Bool)
  /-- A symbolic link with the text of its target. -/
  | link (target : String)
  | dir
deriving DecidableEq

/-- The nodes of a file tree by location.  The root is a directory and not listed. -/
structure Tree where
  entries : List (Location × Node)
  /-- No location is listed twice. -/
  nodup : (entries.map Prod.fst).Nodup
  /-- The root is not listed. -/
  root_free : [] ∉ entries.map Prod.fst
  /-- What is listed is in the root or in a listed directory. -/
  housed : ∀ p ∈ entries, p.1.dropLast = [] ∨ (p.1.dropLast, Node.dir) ∈ entries
  /-- Every location is made of names. -/
  named : ∀ p ∈ entries, ∀ name ∈ p.1, Tree.isName name = true
  /-- The working directory, where relative paths start. -/
  home : Location

namespace Tree

/-- The tree that holds nothing, with the root as working directory. -/
def empty : Tree := ⟨[], List.nodup_nil, by simp, by simp, by simp, []⟩

instance : Inhabited Tree := ⟨empty⟩

/-- The node at a location. -/
def get? (t : Tree) (l : Location) : Option Node :=
  if l = [] then some .dir else (t.entries.find? fun p => p.1 = l).map Prod.snd

@[simp] theorem get?_root (t : Tree) : t.get? [] = some .dir := rfl

/-- A node is at a location exactly when it is listed there. -/
theorem get?_eq_some_iff {t : Tree} {l : Location} {n : Node} (hl : l ≠ []) :
    t.get? l = some n ↔ (l, n) ∈ t.entries := by
  simp only [get?, if_neg hl, Option.map_eq_some_iff]
  constructor
  · rintro ⟨⟨l', n'⟩, hfind, rfl⟩
    have := List.find?_some hfind
    simp only [decide_eq_true_eq] at this
    exact this ▸ List.mem_of_find?_eq_some hfind
  · intro h
    have hsome : (t.entries.find? fun p => p.1 = l).isSome := by
      rw [List.find?_isSome]; exact ⟨_, h, by simp⟩
    obtain ⟨⟨l', n'⟩, hfind⟩ := Option.isSome_iff_exists.1 hsome
    have heq := List.find?_some hfind
    simp only [decide_eq_true_eq] at heq
    subst heq
    refine ⟨_, hfind, ?_⟩
    have hmem := List.mem_of_find?_eq_some hfind
    have inj : ∀ {x y : Location × Node}, x ∈ t.entries → y ∈ t.entries → x.1 = y.1 → x = y := by
      have hnodup := t.nodup
      generalize t.entries = es at hnodup
      intro x y hx hy hxy
      induction es with
      | nil => cases hx
      | cons e es ih =>
          simp only [List.map_cons, List.nodup_cons, List.mem_map, not_exists, not_and] at hnodup
          rcases List.mem_cons.1 hx with rfl | hx' <;> rcases List.mem_cons.1 hy with rfl | hy'
          · rfl
          · exact absurd hxy.symm (hnodup.1 y hy')
          · exact absurd hxy (hnodup.1 x hx')
          · exact ih hnodup.2 hx' hy'
    exact congrArg Prod.snd (inj hmem h rfl)

/-- Whether a location is another one or below it. -/
def covers (above l : Location) : Bool := decide (above <+: l)

/-- Whether nothing is listed strictly below a location. -/
def isBare (t : Tree) (l : Location) : Bool :=
  t.entries.all fun p => !covers l p.1 || p.1 = l

/-- Whether a location ends in a name. -/
def endsNamed (l : Location) : Bool := l.getLast?.any isName

/-- A location is made of names when its directory is and it ends in one. -/
theorem isName_of_mem {t : Tree} {l : Location} (hparent : t.get? l.dropLast = some .dir)
    (hlast : endsNamed l = true) : ∀ name ∈ l, isName name = true := by
  intro name hname
  have hl : l ≠ [] := List.ne_nil_of_mem hname
  rw [← List.dropLast_concat_getLast hl, List.mem_append] at hname
  rcases hname with hin | hin
  · have hne : l.dropLast ≠ [] := List.ne_nil_of_mem hin
    exact t.named _ ((get?_eq_some_iff hne).1 hparent) name hin
  · rw [List.mem_singleton] at hin
    simpa [endsNamed, List.getLast?_eq_some_getLast hl, hin] using hlast

/-- Whether a node may be put at a location: the location is a name in a directory, and only
a directory may have something below it. -/
def canSet (t : Tree) (l : Location) (n : Node) : Bool :=
  l ≠ [] && t.get? l.dropLast = some .dir && endsNamed l && (n = .dir || t.isBare l)

theorem dropLast_ne_self {l : Location} (h : l ≠ []) : l.dropLast ≠ l := by
  intro heq
  have := congrArg List.length heq
  rw [List.length_dropLast] at this
  have := List.length_pos_iff.2 h
  omega

/-- A location covers what the directory of another covers. -/
theorem covers_of_covers_dropLast {a l : Location} (h : covers a l.dropLast = true) :
    covers a l = true := by
  simp only [covers, decide_eq_true_eq] at h ⊢
  exact h.trans (List.dropLast_prefix l)

/-- Where a node is put, when it may be put there. -/
def put (t : Tree) (l : Location) (n : Node) (h : t.canSet l n = true) : Tree where
  entries := (l, n) :: t.entries.filter (·.1 ≠ l)
  nodup := by
    rw [List.map_cons, List.nodup_cons]
    refine ⟨?_, t.nodup.sublist (List.filter_sublist.map Prod.fst)⟩
    simp
  root_free := by
    simp only [canSet, Bool.and_eq_true, decide_eq_true_eq] at h
    have hfree := t.root_free
    simp only [List.mem_map, Prod.exists, exists_and_right, exists_eq_right, not_exists] at hfree
    simpa [h.1.1.1] using fun n hn => absurd hn (hfree n)
  named := by
    simp only [canSet, Bool.and_eq_true, decide_eq_true_eq] at h
    obtain ⟨⟨⟨-, hparent⟩, hlast⟩, -⟩ := h
    intro p hp
    rcases List.mem_cons.1 hp with rfl | hp
    · exact isName_of_mem hparent hlast
    · exact t.named p (List.mem_filter.1 hp).1
  housed := by
    simp only [canSet, Bool.and_eq_true, decide_eq_true_eq, Bool.or_eq_true] at h
    obtain ⟨⟨⟨hne, hparent⟩, -⟩, hbare⟩ := h
    intro p hp
    rcases List.mem_cons.1 hp with rfl | hp
    · by_cases hroot : l.dropLast = []
      · exact .inl hroot
      · refine .inr (List.mem_cons_of_mem _ (List.mem_filter.2 ⟨?_, ?_⟩))
        · exact (get?_eq_some_iff hroot).1 hparent
        · simpa using dropLast_ne_self hne
    · obtain ⟨hp, hpl⟩ := List.mem_filter.1 hp
      simp only [ne_eq, decide_not, Bool.not_eq_eq_eq_not, Bool.not_true,
        decide_eq_false_iff_not] at hpl
      rcases t.housed p hp with hroot | hdir
      · exact .inl hroot
      · by_cases hpar : p.1.dropLast = l
        · rcases hbare with rfl | hbare
          · exact .inr (by rw [hpar]; exact List.mem_cons_self)
          · simp only [isBare, List.all_eq_true, Bool.or_eq_true, Bool.not_eq_eq_eq_not,
              Bool.not_true, decide_eq_true_eq] at hbare
            have hcov : covers l p.1 = true := by
              simp only [covers, decide_eq_true_eq]
              exact hpar ▸ List.dropLast_prefix p.1
            rcases hbare p hp with hno | heq
            · rw [hcov] at hno; cases hno
            · exact absurd heq hpl
        · refine .inr (List.mem_cons_of_mem _ (List.mem_filter.2 ⟨hdir, by simpa using hpar⟩))
  home := t.home

/-- Puts a node at a location, in place of what was there. -/
def set (t : Tree) (l : Location) (n : Node) : Tree :=
  if h : t.canSet l n = true then t.put l n h else t

/-- Takes a location away with everything below it. -/
def remove (t : Tree) (l : Location) : Tree where
  entries := t.entries.filter fun p => !covers l p.1
  nodup := t.nodup.sublist (List.filter_sublist.map Prod.fst)
  root_free := fun h => t.root_free ((List.filter_sublist.map Prod.fst).subset h)
  named := fun p hp => t.named p (List.mem_filter.1 hp).1
  housed := by
    intro p hp
    obtain ⟨hp, hcov⟩ := List.mem_filter.1 hp
    rcases t.housed p hp with hroot | hdir
    · exact .inl hroot
    · refine .inr (List.mem_filter.2 ⟨hdir, ?_⟩)
      cases h : covers l p.1.dropLast with
      | false => rfl
      | true => simp [covers_of_covers_dropLast h] at hcov
  home := t.home

/-- The names directly below a location, in order. -/
def children (t : Tree) (l : Location) : List String :=
  (t.entries.filterMap fun p => if p.1.dropLast = l then p.1.getLast? else none).mergeSort
    fun a b => decide (a ≤ b)

/-- Where a location goes when what is at `source` goes to `target`. -/
def rebase (source target l : Location) : Location :=
  if covers source l then target ++ l.drop source.length else l

/-- Whether a location may be brought to another: the target is a name in a directory, and
neither location is below the other. -/
def canMove (t : Tree) (source target : Location) : Bool :=
  source ≠ [] && target ≠ [] && t.get? target.dropLast = some .dir && endsNamed target &&
    !covers source target && !covers target source

theorem rebase_of_covers {source target l : Location} (h : covers source l = true) :
    rebase source target l = target ++ l.drop source.length := by
  simp [rebase, h]

theorem rebase_of_not_covers {source target l : Location} (h : covers source l = false) :
    rebase source target l = l := by
  simp [rebase, h]

theorem eq_append_drop_of_covers {a l : Location} (h : covers a l = true) :
    l = a ++ l.drop a.length := by
  simp only [covers, decide_eq_true_eq] at h
  obtain ⟨r, rfl⟩ := h
  simp

/-- Outside the target, rebasing keeps locations apart. -/
theorem rebase_injective {source target l l' : Location}
    (hl : covers target l = false) (hl' : covers target l' = false)
    (h : rebase source target l = rebase source target l') : l = l' := by
  have hcovers : ∀ r : Location, covers target (target ++ r) = true := fun r => by
    simp [covers]
  cases hs : covers source l <;> cases hs' : covers source l'
  · rwa [rebase_of_not_covers hs, rebase_of_not_covers hs'] at h
  · rw [rebase_of_not_covers hs, rebase_of_covers hs'] at h
    rw [h, hcovers] at hl; cases hl
  · rw [rebase_of_covers hs, rebase_of_not_covers hs'] at h
    rw [← h, hcovers] at hl'; cases hl'
  · rw [rebase_of_covers hs, rebase_of_covers hs'] at h
    rw [eq_append_drop_of_covers hs, eq_append_drop_of_covers hs', List.append_cancel_left h]

/-- Below the source, the directory of a location goes where the location goes. -/
theorem dropLast_rebase {source target l : Location} (h : covers source l = true)
    (hne : l ≠ source) : (rebase source target l).dropLast = rebase source target l.dropLast := by
  obtain ⟨r, rfl⟩ : source <+: l := by simpa [covers] using h
  have hr : r ≠ [] := by rintro rfl; exact hne (List.append_nil _)
  have hcov : covers source (source ++ r).dropLast = true := by
    rw [List.dropLast_append_of_ne_nil hr]
    simp [covers]
  rw [rebase_of_covers h, rebase_of_covers hcov, List.dropLast_append_of_ne_nil hr]
  simp [List.dropLast_append_of_ne_nil hr]

/-- Where a location is brought, when it may be brought there. -/
def bring (t : Tree) (source target : Location) (h : t.canMove source target = true) : Tree where
  entries := (t.entries.filter fun p => !covers target p.1).map fun p =>
    (rebase source target p.1, p.2)
  nodup := by
    rw [List.map_map]
    have hinj : ∀ l : List (Location × Node), (l.map Prod.fst).Nodup →
        (∀ p ∈ l, covers target p.1 = false) →
        (l.map (Prod.fst ∘ fun p => (rebase source target p.1, p.2))).Nodup := by
      intro l hnodup hout
      induction l with
      | nil => simp
      | cons p l ih =>
          simp only [List.map_cons, List.nodup_cons, List.mem_map, not_exists, not_and,
            Function.comp_apply] at hnodup ⊢
          refine ⟨fun q hq heq => ?_, ih hnodup.2 fun q hq => hout q (List.mem_cons_of_mem _ hq)⟩
          exact hnodup.1 q hq (rebase_injective (hout q (List.mem_cons_of_mem _ hq))
            (hout p List.mem_cons_self) heq)
    refine hinj _ (t.nodup.sublist (List.filter_sublist.map Prod.fst)) fun p hp => ?_
    simpa using (List.mem_filter.1 hp).2
  root_free := by
    simp only [canMove, Bool.and_eq_true, decide_eq_true_eq] at h
    obtain ⟨⟨⟨⟨⟨hs, htgt⟩, -⟩, -⟩, -⟩, -⟩ := h
    rw [List.map_map, List.mem_map]
    rintro ⟨p, hp, hnil⟩
    simp only [Function.comp_apply] at hnil
    cases hc : covers source p.1 with
    | true =>
        rw [rebase_of_covers hc] at hnil
        exact htgt (List.append_eq_nil_iff.1 hnil).1
    | false =>
        rw [rebase_of_not_covers hc] at hnil
        exact t.root_free (List.mem_map.2 ⟨p, (List.mem_filter.1 hp).1, hnil⟩)
  named := by
    simp only [canMove, Bool.and_eq_true, decide_eq_true_eq] at h
    obtain ⟨⟨⟨⟨-, hparent⟩, hlast⟩, -⟩, -⟩ := h
    intro q hq
    obtain ⟨p, hp, rfl⟩ := List.mem_map.1 hq
    have hnames := t.named p (List.mem_filter.1 hp).1
    cases hc : covers source p.1 with
    | false => simpa only [rebase_of_not_covers hc] using hnames
    | true =>
        simp only [rebase_of_covers hc]
        intro name hname
        rcases List.mem_append.1 hname with hin | hin
        · exact isName_of_mem hparent hlast name hin
        · exact hnames name (List.mem_of_mem_drop hin)
  housed := by
    simp only [canMove, Bool.and_eq_true, decide_eq_true_eq, Bool.not_eq_eq_eq_not,
      Bool.not_true] at h
    obtain ⟨⟨⟨⟨⟨hs, htgt⟩, hparent⟩, -⟩, hst⟩, hts⟩ := h
    intro q hq
    obtain ⟨p, hp, rfl⟩ := List.mem_map.1 hq
    obtain ⟨hp, hout⟩ := List.mem_filter.1 hp
    simp only [Bool.not_eq_eq_eq_not, Bool.not_true] at hout
    have keep : ∀ d : Location, (d, Node.dir) ∈ t.entries → covers target d = false →
        (rebase source target d, Node.dir) ∈
          (t.entries.filter fun p => !covers target p.1).map fun p =>
            (rebase source target p.1, p.2) := fun d hd hcd =>
      List.mem_map.2 ⟨(d, .dir), List.mem_filter.2 ⟨hd, by simpa using hcd⟩, rfl⟩
    cases hc : covers source p.1 with
    | false =>
        rw [rebase_of_not_covers hc]
        rcases t.housed p hp with hroot | hdir
        · exact .inl hroot
        · have hd : covers source p.1.dropLast = false := by
            cases h : covers source p.1.dropLast with
            | false => rfl
            | true => rw [covers_of_covers_dropLast h] at hc; cases hc
          have ht : covers target p.1.dropLast = false := by
            cases h : covers target p.1.dropLast with
            | false => rfl
            | true => rw [covers_of_covers_dropLast h] at hout; cases hout
          have := keep _ hdir ht
          rw [rebase_of_not_covers hd] at this
          exact .inr this
    | true =>
        by_cases heq : p.1 = source
        · have hself : rebase source target p.1 = target := by
            rw [rebase_of_covers hc, heq]; simp
          rw [hself]
          by_cases hroot : target.dropLast = []
          · exact .inl hroot
          · have hdir := (get?_eq_some_iff hroot).1 hparent
            have ht : covers target target.dropLast = false := by
              cases h : covers target target.dropLast with
              | false => rfl
              | true =>
                  simp only [covers, decide_eq_true_eq] at h
                  have := h.length_le
                  rw [List.length_dropLast] at this
                  have := List.length_pos_iff.2 htgt
                  omega
            have hd : covers source target.dropLast = false := by
              cases h : covers source target.dropLast with
              | false => rfl
              | true => rw [covers_of_covers_dropLast h] at hst; cases hst
            have := keep _ hdir ht
            rw [rebase_of_not_covers hd] at this
            exact .inr this
        · rw [dropLast_rebase hc heq]
          rcases t.housed p hp with hroot | hdir
          · exfalso
            have hpre := eq_append_drop_of_covers hc
            have hr : p.1.drop source.length ≠ [] := by
              intro hnil
              rw [hnil, List.append_nil] at hpre
              exact heq hpre
            rw [hpre, List.dropLast_append_of_ne_nil hr] at hroot
            exact hs (List.append_eq_nil_iff.1 hroot).1
          · have ht : covers target p.1.dropLast = false := by
              cases h : covers target p.1.dropLast with
              | false => rfl
              | true => rw [covers_of_covers_dropLast h] at hout; cases hout
            exact .inr (keep _ hdir ht)
  home := t.home

/-- Brings a location with everything below it to another place, in place of what was
there. -/
def move (t : Tree) (source target : Location) : Tree :=
  if h : t.canMove source target = true then t.bring source target h else t

end Tree

end Sysroot

import Sysroot.Proofs.Install.Escapes
import Sysroot.Proofs.Install.Linkless
import Sysroot.Proofs.Tree.Confined

/-!
# Headers that cannot be put anywhere

The place of headers below `include` may go down and still be no place, for a component that is no
name: one too long, or with a NUL in it.  Nothing is ever there, and no directory can be made on
the way (`ensureDirs_overlong`), so that an installation with such a place among its own fails.  It
leaves things as they were, unless its failure is one that nobody gives a cause to
(`transact_astray`).
-/

namespace Sysroot.Tree

open Sysroot.Tree.Action

variable {t t' : Tree} {root : Path} {R l : Location} {k : Nat} {aim : Aim}
  {names front more : List String} {b : String}

/-! ## Components that are no names -/

/-- A path to something below a seat without links is made of names. -/
theorem Seat.plain_of_locate (h : Seat t root R k) (hlinks : NoLinks t R) (hne : names ≠ [])
    (hnames : Descending names) (hok : t.locate (root.within names) aim = .ok l) {n : Node}
    (hn : t.get? l = some n) : Plain names := fun name hname =>
  isName_of_get? hn name (h.locate_ok hlinks hne hnames hok ▸ List.mem_append_right R hname)

/-- Nothing can be found below a seat without links by components of which one is no name. -/
theorem Seat.node?_of_not_plain (h : Seat t root R k) (hlinks : NoLinks t R) (hne : names ≠ [])
    (hnames : Descending names) (hno : ¬ Plain names) :
    t.node? (root.within names) = none ∧ t.nodeItself? (root.within names) = none := by
  constructor
  all_goals
    first | rw [node?] | rw [nodeItself?]
    split
    · next l hl =>
      cases hn : t.get? l with
      | none => rfl
      | some n => exact absurd (h.plain_of_locate hlinks hne hnames hl hn) hno
    · rfl

/-- Components that arrive somewhere are not too long. -/
theorem fit_of_stretch (here : Location) (hnames : Descending names) (hlinks : NoLinks t here)
    (h : stretch t aim here names = .arrived l) : Fit names := by
  induction names generalizing here with
  | nil => exact fun name hname => absurd hname List.not_mem_nil
  | cons name rest ih =>
    obtain ⟨hempty, hdot, hdots⟩ := hnames name List.mem_cons_self
    rw [stretch] at h
    split at h
    · cases h
    · rw [if_neg (by simp [hempty, hdot]), if_neg hdots] at h
      split at h
      · cases h
      split at h
      · cases h
      next hfit =>
      have hcons : Fit rest → Fit (name :: rest) := fun hrest n hn => by
        rcases List.mem_cons.1 hn with rfl | hn
        · exact Nat.le_of_not_lt hfit
        · exact hrest n hn
      split at h
      · split at h
        · next hnil =>
          subst hnil
          exact hcons fun n hn => absurd hn List.not_mem_nil
        · cases h
      · next target hlink => exact absurd hlink (hlinks [name] target)
      · exact hcons (ih (here ++ [name]) (fun n hn => hnames n (List.mem_cons_of_mem _ hn))
          (hlinks.within [name]) h)
    · cases h

/-- A path below a seat without links that has a component too long leads nowhere. -/
theorem Seat.locate_overlong (h : Seat t root R k) (aim : Aim) (hlinks : NoLinks t R)
    (hne : names ≠ []) (hnames : Descending names) (hlong : ¬ Fit names) :
    ∃ reason, t.locate (root.within names) aim = .error reason := by
  rcases hl : t.locate (root.within names) aim with reason | l
  · exact ⟨reason, rfl⟩
  rw [Tree.locate] at hl
  split at hl
  · cases hl
  obtain ⟨k', hk'⟩ := h.locateFrom_onward aim hne hnames
  have hlocate := hk'.symm.trans hl
  obtain ⟨-, hlink⟩ := stretch_descending aim R hnames hlinks
  unfold locateFrom at hlocate
  split at hlocate
  · next hs => exact absurd (fit_of_stretch R hnames hlinks hs) hlong
  · cases hlocate
  · cases hlocate
  · next hs => exact absurd hs (hlink _ _)

/-- After directories a component that is too long is refused for its length. -/
theorem locateFrom_overlong (hlinks : NoLinks t R) (hdir : t.get? (R ++ front) = some .dir)
    (hnames : Descending (b :: more)) (hlong : nameLimit < b.utf8ByteSize) :
    locateFrom t .target k R (front ++ b :: more) = .error .nameTooLong := by
  obtain ⟨hempty, hdot, hdots⟩ := hnames b List.mem_cons_self
  have hfront : Plain front := fun n hn => isName_of_get? hdir n (List.mem_append_right _ hn)
  obtain ⟨d, hd, hdir'⟩ := leadsToDir_of_get? (k := k) hfront hdir
  obtain rfl := locateFrom_descending hfront.descending hlinks hd
  obtain ⟨k', hk'⟩ := locateFrom_onward .target (List.cons_ne_nil b more)
    (fun heq => hempty (List.cons.inj heq).1) hd hdir
  rw [hk']
  unfold locateFrom
  rw [stretch, hdir]
  simp [hempty, hdot, hdots, hlong]

/-! ## Directories that cannot be made -/

theorem Seat.ensureDir_overlong (h : Seat t root R k) (hlinks : NoLinks t R) (hne : names ≠ [])
    (hnames : Descending names) (hlong : ¬ Fit names)
    (hnull : hasNull (root.within names).text = false) :
    ∃ e, Action.ensureDir (root.within names) t = (.error (.system e), t) := by
  obtain ⟨reason, hreason⟩ := h.locate_overlong .itself hlinks hne hnames hlong
  have hmake : t.makeDir (root.within names) =
      .error (.refused reason (root.within names).text) := by
    rw [Tree.makeDir, place, Tree.placeOr, hnull, hreason]
    rfl
  rw [ensureDir_apply, hmake]
  dsimp only
  split
  · exact ⟨_, rfl⟩
  split
  · next hquery =>
    rcases query_ok hquery with hdir | hdir
    · rw [isDir, (h.node?_of_not_plain hlinks hne hnames fun hp => hlong hp.fit).1] at hdir
      cases hdir
    · cases hdir
  · exact ⟨_, rfl⟩
  · next hquery =>
    rw [query_error hquery]
    exact ⟨_, rfl⟩

theorem hasNull_of_within_append (h : hasNull (root.within (front ++ more)).text = false) :
    hasNull (root.within front).text = false := by
  cases hn : hasNull (root.within front).text with
  | false => rfl
  | true =>
    obtain ⟨name, hname, hnull⟩ := Path.hasNull_text.1 hn
    have hmem : name ∈ (root.within (front ++ more)).parts := by
      rw [Path.parts_within] at hname ⊢
      rw [← List.append_assoc]
      exact List.mem_append_left more hname
    rw [Path.hasNull_text.2 ⟨name, hmem, hnull⟩] at h
    cases h

theorem hasNull_of_within (h : hasNull (root.within names).text = false) :
    hasNull root.text = false := by
  have hroot : hasNull (root.within []).text = false := hasNull_of_within_append h
  rwa [Path.within_nil] at hroot

/-- Directories under a component that is too long are not made, at most those before it. -/
theorem Seat.ensureDirs_overlong (h : Seat t root R k) (hlinks : NoLinks t R)
    (hplain : Plain front) (hne : front ≠ []) (hnames : Descending (b :: more))
    (hlong : nameLimit < b.utf8ByteSize)
    (hnull : hasNull (root.within (front ++ b :: more)).text = false) :
    ∃ e t', Action.ensureDirs (root.within (front ++ b :: more)) t = (.error (.system e), t') ∧
      (t' = t ∨ Paved R front t t') := by
  have hrefused : ∀ {t more}, Seat t root R k → NoLinks t R → Descending (b :: more) →
      hasNull (root.within (front ++ b :: more)).text = false →
      ∃ e, Action.ensureDir (root.within (front ++ b :: more)) t = (.error (.system e), t) :=
    fun hseat hlinks hnames hnull => hseat.ensureDir_overlong hlinks (by simp)
      (hplain.descending.append hnames)
      (fun hfit => Nat.not_lt.2 (hfit b (by simp)) hlong) hnull
  induction more using List.reverseRecOn with
  | nil =>
    obtain ⟨e, he⟩ := hrefused h hlinks hnames hnull
    rw [ensureDirs_concat, he]
    dsimp only
    split
    · exact ⟨e, t, rfl, .inl rfl⟩
    obtain ⟨first, rest, rfl⟩ := List.exists_cons_of_ne_nil hne
    have hroot : hasNull root.text = false := hasNull_of_within hnull
    rcases h.ensureDirs hroot hplain (straight_of_no_link fun f target _ => hlinks f target) with
      ⟨e', he'⟩ | ⟨t₁, ht₁, hpaved⟩
    · rw [he']
      exact ⟨e', t, rfl, .inl rfl⟩
    · have hlinks₁ : NoLinks t₁ R := fun y target hy =>
        hlinks y target (hpaved.grown.of_ne_dir hy (by simp))
      obtain ⟨e', he'⟩ := hrefused (h.of_sameAround (hpaved.sameAround h.dir)) hlinks₁ hnames hnull
      rw [ht₁]
      exact ⟨e', t₁, he', .inr hpaved⟩
  | append_singleton more x ih =>
    obtain ⟨e, he⟩ := hrefused h hlinks hnames hnull
    have hsplit : front ++ b :: (more ++ [x]) = front ++ b :: more ++ [x] := by simp
    rw [hsplit] at he hnull ⊢
    rw [ensureDirs_concat, he]
    dsimp only
    split
    · exact ⟨e, t, rfl, .inl rfl⟩
    obtain ⟨e', t', he', ht'⟩ := ih (hnames.of_prefix ⟨[x], by simp⟩)
      (hasNull_of_within_append hnull)
    rw [he']
    exact ⟨e', t', rfl, ht'⟩

end Sysroot.Tree

namespace Sysroot.Install

open Effect Sysroot.Tree Sysroot.Tree.Action

variable {T t t' t₁ t₂ : Tree} {root dir : Path} {R : Location} {k : Nat} {a b : String} {l : Library}
  {names front more : List String} {filled moved : List (List String)} {item : String × Path}
  {rest : List (String × Path)} {m : OrderedMap String Path}

/-! ## Entries that go astray -/

theorem spelled_entry {r : List String} (h : Path.Spelled names) (hr : Plain r) :
    Path.Spelled ("include" :: names ++ r) := by
  intro name hname
  rcases List.mem_append.1 hname with hname | hname
  · rcases List.mem_cons.1 hname with rfl | hname
    · decide
    · exact h name hname
  · exact Path.Spelled.of_plain hr name hname

/-- Whether an entry of a mapping gives a source to what is no place, because after some names there
comes a component that is none. -/
structure IsStray (item : String × Path) (front : List String) (b : String) (more : List String)
    (last : String) : Prop where
  down : Path.GoesDown item.1
  names : namesOf item.1 = front ++ b :: more ++ [last]
  plain : Plain front
  stray : isName b = false
  front_ne : front ≠ []
  last : isName last = true

/-- Where the place of headers is no place, neither are those of the files among them. -/
theorem isStray_of_mem (hspelled : Path.Spelled names) (hdown : Descending names)
    (hno : ¬ Plain names) (h : item ∈ mappingUnder t (Path.ofNames ("include" :: names)) dir) :
    ∃ front b more last, IsStray item front b more last := by
  obtain ⟨-, d, r, n, -, hr, hn, -, rfl⟩ := entry_of_mem h
  have hr' : Plain r := fun name hname => isName_of_get? hn name (List.mem_append_right d hname)
  obtain ⟨inner, last, rfl⟩ : ∃ inner last, r = inner ++ [last] :=
    ⟨r.dropLast, r.getLast hr, (List.dropLast_concat_getLast hr).symm⟩
  have hkey : Path.ofText (Path.ofNames ("include" :: names ++ (inner ++ [last]))).text =
      Path.ofNames ("include" :: names ++ (inner ++ [last])) :=
    (spelled_entry hspelled hr').ofText_text
  obtain ⟨b, hb⟩ : ∃ b, names.find? (fun name => !isName name) = some b := by
    refine Option.isSome_iff_exists.1 (List.find?_isSome.2 ?_)
    by_contra hnone
    exact hno fun name hname => by
      by_contra hname'
      exact hnone ⟨name, hname, by simpa using hname'⟩
  obtain ⟨hstray, front, rest, rfl, hfront⟩ := List.find?_eq_some_iff_append.1 hb
  refine ⟨"include" :: front, b, rest ++ inner, last, ⟨?_, ?_⟩, ?_, ?_, by simpa using hstray,
    List.cons_ne_nil _ _, hr' last (by simp)⟩
  · rw [hkey]
    rfl
  · rw [hkey]
    intro hdots
    rcases List.mem_append.1 hdots with hdots | hdots
    · rcases List.mem_cons.1 hdots with hdots | hdots
      · exact absurd hdots (by decide)
      · exact (hdown _ hdots).2.2 rfl
    · exact (isName_iff.1 (hr' _ hdots)).1.2.2 rfl
  · rw [namesOf, hkey]
    simp [Path.ofNames]
  · exact plain_cons.2 ⟨by decide, fun name hname => by simpa using hfront name hname⟩

namespace IsStray

variable {last : String} (h : IsStray item front b more last)

include h

theorem descending : Descending (front ++ b :: more ++ [last]) := h.names ▸ h.down.descending

theorem not_plain : ¬ Plain (front ++ b :: more ++ [last]) := fun hplain => by
  have hb := hplain b (by simp)
  rw [h.stray] at hb
  cases hb

theorem div_eq (p : Path) : p / item.1 = p.within (front ++ b :: more ++ [last]) :=
  (h.down.div p).trans (congrArg p.within h.names)

theorem hasNull_eq (hnull : hasNull (root.within (front ++ b :: more)).text = false) :
    hasNull (root.within (front ++ b :: more ++ [last])).text = false := by
  rw [← Path.within_within, Path.hasNull_within (by simpa using h.last), hnull]

/-- Without a NUL in it, what is no name is too long for one. -/
theorem overlong (hnull : hasNull (root.within (front ++ b :: more)).text = false) :
    nameLimit < b.utf8ByteSize := by
  have hb : '\x00' ∉ b.toList := fun hin => by
    rw [Path.hasNull_text.2 ⟨b, by simp, hin⟩] at hnull
    cases hnull
  have hmem : b ∈ namesOf item.1 := by
    rw [h.names]
    simp
  obtain ⟨hempty, hdot, hslash⟩ := Path.spelled_parts item.1 b hmem
  have hdots := (h.descending b (by simp)).2.2
  by_contra hfit
  have hname := isName_iff.2 ⟨⟨hempty, hdot, hdots⟩, Nat.le_of_not_lt hfit, hslash, hb⟩
  rw [h.stray] at hname
  cases hname

section

variable (hseat : Seat t root R k) (hlinks : NoLinks t R)

include hseat hlinks

/-- There is never anything at what is no place. -/
theorem query_ne : t.query (root.within (front ++ b :: more ++ [last])) Tree.occupies ≠ .ok true := by
  intro hquery
  obtain ⟨hnode, hitself⟩ :=
    hseat.node?_of_not_plain hlinks (by simp) h.descending h.not_plain
  rcases query_ok hquery with hocc | hocc
  · rw [occupies, holds, isLink, hnode, hitself] at hocc
    cases hocc
  · cases hocc

/-- Clearing what is no place does nothing, or is refused. -/
theorem clearPlace_cases :
    clearPlace (root.within (front ++ b :: more ++ [last])) t = (.ok (), t) ∨
      ∃ e, clearPlace (root.within (front ++ b :: more ++ [last])) t = (.error (.system e), t) := by
  rw [clearPlace_apply]
  split
  · next e he =>
    rw [query_error he]
    exact .inr ⟨_, rfl⟩
  · exact .inl rfl
  · next hquery => exact absurd hquery (h.query_ne hseat hlinks)

/-- Once directories are made on the way there, clearing what is no place is refused. -/
theorem clearPlace_of_dir (hnull : hasNull (root.within (front ++ b :: more)).text = false)
    (hdir : t.get? (R ++ front) = some .dir) :
    ∃ e, clearPlace (root.within (front ++ b :: more ++ [last])) t = (.error (.system e), t) := by
  have hlocate : t.locate (root.within (front ++ b :: more ++ [last])) = .error .nameTooLong := by
    rw [Tree.locate]
    split
    · rfl
    obtain ⟨k', hk'⟩ := hseat.locateFrom_onward .target (by simp) h.descending
    refine hk'.trans ?_
    rw [List.append_assoc, List.cons_append]
    exact locateFrom_overlong hlinks hdir
      (fun name hname => h.descending name (by simpa using .inr (by simpa using hname)))
      (h.overlong hnull)
  rw [clearPlace_apply, Tree.query, hlocate, h.hasNull_eq hnull]
  exact ⟨_, rfl⟩

/-- Nothing is copied to what is no place: that is refused, before or after directories were made on
the way there, or fails because of a NUL. -/
theorem copyEach_cases (u : Undo) (rest : List (String × Path)) :
    ∃ fault u' t', copyEach root (root.within (stash a)) (item :: rest) u t =
        (.error fault, u', t') ∧
      (fault = .nullCharacter ∨ ∃ e, fault = .system e ∧ (u' = u ∧ t' = t ∨
        u' = u.record (root.within (front ++ b :: more ++ [last])) none ∧ (t' = t ∨
          hasNull (root.within (front ++ b :: more)).text = false ∧ Paved R front t t'))) := by
  obtain ⟨relative, source⟩ := item
  rw [copyEach_cons_apply, h.div_eq root, setAside_apply]
  split
  · next heq =>
    split at heq
    · next e he =>
      cases heq
      rw [query_error he]
      exact ⟨_, u, _, rfl, .inr ⟨_, rfl, .inl ⟨rfl, rfl⟩⟩⟩
    · cases heq
    · next hquery => exact absurd hquery (h.query_ne hseat hlinks)
  · next kept t₁ heq =>
    split at heq
    · cases heq
    · cases heq
      rw [copyTo_apply, Path.parent_within]
      cases hnull : hasNull (root.within (front ++ b :: more)).text with
      | true =>
        have hfault := ensureDirs_of_null hnull (t := t)
        rcases hmade : ensureDirs (root.within (front ++ b :: more)) t with ⟨fault | _, t'⟩
        · rw [hmade] at hfault
          cases hfault
          exact ⟨_, _, t', rfl, .inl rfl⟩
        · rw [hmade] at hfault
          cases hfault
      | false =>
        have hnames : Descending (b :: more) := fun name hname =>
          h.descending name (by simpa using .inr (Or.imp id .inl (List.mem_cons.1 hname)))
        obtain ⟨e, t', he, ht'⟩ := hseat.ensureDirs_overlong hlinks h.plain h.front_ne hnames
          (h.overlong hnull) hnull
        rw [he]
        exact ⟨_, _, t', rfl, .inr ⟨e, rfl, .inr ⟨rfl, ht'.imp id fun hpaved => ⟨rfl, hpaved⟩⟩⟩⟩
    · next hquery => exact absurd hquery (h.query_ne hseat hlinks)

end

end IsStray

/-! ## Undoing -/

theorem clearCreated_append (places places' : List Path) :
    clearCreated (places ++ places') = clearCreated places >>= fun _ => clearCreated places' := by
  induction places with
  | nil => rfl
  | cons place places ih =>
    rw [List.cons_append, clearCreated_cons, clearCreated_cons, ih, bind_assoc]

/-- Undoing with one more place clears it after the others. -/
theorem undo_record {t₁ : Tree} (place : Path)
    (hclear : clearCreated (filled.map root.within) t = (.ok (), t₁)) :
    ((undoOf root a filled moved).record place none).run t =
      (clearPlace place >>= fun _ => restoreSaved (undoOf root a filled moved).saved) t₁ := by
  show (clearCreated (filled.map root.within ++ [place]) >>= fun _ => restoreSaved _) t = _
  rw [clearCreated_append, bind_assoc, bind_of_ok hclear, clearCreated_cons, bind_assoc]
  rfl

theorem noLinks_of_cleared (hlinks : NoLinks t R) (hfree : ∀ x ∈ filled, t'.get? (R ++ x) = none)
    (hother : ∀ m, (∀ x ∈ filled, m ≠ R ++ x) → t'.get? m = t.get? m) : NoLinks t' R := by
  intro y target hy
  by_cases hin : ∃ x ∈ filled, R ++ y = R ++ x
  · obtain ⟨x, hx, heq⟩ := hin
    rw [heq, hfree x hx] at hy
    cases hy
  · rw [hother _ fun x hx heq => hin ⟨x, hx, heq⟩] at hy
    exact hlinks y target hy

/-- Undoing a copying that went astray is undoing what came before, or is refused. -/
theorem IsStray.undo {last : String} (h : IsStray item front b more last)
    (hrec : Recoverable T t root R k a filled moved) (hseat : Seat t root R k)
    (hnull : hasNull root.text = false) (hlinks : NoLinks t R) :
    ((undoOf root a filled moved).record (root.within (front ++ b :: more ++ [last])) none).run t =
        (undoOf root a filled moved).run t ∨
      ∃ e t', ((undoOf root a filled moved).record
        (root.within (front ++ b :: more ++ [last])) none).run t = (.error (.system e), t') := by
  obtain ⟨t₁, hclear, hsame, -, hfree, hother⟩ := clearCreated_spec hseat hnull hlinks.askable
    fun x (hx : x ∈ filled) => ⟨(hrec.places x (.inl hx)).1, (hrec.places x (.inl hx)).2,
      hrec.clear x hx⟩
  have hlinks₁ : NoLinks t₁ R := noLinks_of_cleared hlinks hfree hother
  rw [undo_record _ hclear]
  rcases h.clearPlace_cases (hseat.of_sameAround hsame) hlinks₁ with hok | ⟨e, he⟩
  · left
    rw [bind_of_ok hok]
    show _ = (clearCreated (filled.map root.within) >>= fun _ => restoreSaved _) t
    rw [bind_of_ok hclear]
  · exact .inr ⟨e, t₁, bind_of_error he⟩

/-- Undoing a copying that went astray after directories were made is refused. -/
theorem IsStray.undo_of_paved {last : String} (h : IsStray item front b more last)
    (hprog : Progress T t root R a filled moved) (hseat : Seat t root R k)
    (hlinks : NoLinks t R) (hnull : hasNull (root.within (front ++ b :: more)).text = false)
    (hpaved : Paved R front t t') :
    ∃ e t'', ((undoOf root a filled moved).record
      (root.within (front ++ b :: more ++ [last])) none).run t' = (.error (.system e), t'') := by
  have hroot : hasNull root.text = false := hasNull_of_within hnull
  have hseat' := hseat.of_sameAround (hpaved.sameAround hseat.dir)
  have hlinks' : NoLinks t' R := hlinks.of_grown hpaved.grown
  have htaken : Taken t' R filled :=
    (hprog.taken.of_subset fun x hx => List.mem_append_left moved hx).pave hpaved
  obtain ⟨t₁, hclear, hsame, -, hfree, hother⟩ := clearCreated_spec (k := k)
    hseat' hroot hlinks'.askable fun x (hx : x ∈ filled) => ⟨(hprog.places x (.inl hx)).1,
      (hprog.places x (.inl hx)).2, .inl (htaken.dir hx (hprog.places x (.inl hx)).1)⟩
  have hlinks₁ : NoLinks t₁ R := noLinks_of_cleared hlinks' hfree hother
  have hdir : t₁.get? (R ++ front) = some .dir := by
    rw [hother _ fun x hx heq => ?_, hpaved.dir]
    obtain rfl := List.append_cancel_left heq
    exact (htaken.dir hx (hprog.places _ (.inl hx)).1).2 hpaved.dir
  obtain ⟨e, he⟩ := h.clearPlace_of_dir (hseat'.of_sameAround hsame) hlinks₁ hnull hdir
  rw [undo_record _ hclear]
  exact ⟨e, t₁, bind_of_error he⟩

/-! ## Transactions -/

theorem copyEach_append_of_error {aside : Path} {done : List (String × Path)} {u u' : Undo}
    {fault : Fault} (h : copyEach root aside done u T = (.error fault, u', t)) :
    copyEach root aside (done ++ rest) u T = (.error fault, u', t) := by
  induction done generalizing u T with
  | nil => cases h
  | cons item done ih =>
    obtain ⟨relative, source⟩ := item
    rw [List.cons_append, copyEach_cons_apply]
    rw [copyEach_cons_apply] at h
    split at h
    · exact h
    · split at h
      · exact h
      · exact ih h

/-- A transaction with an entry that goes astray fails, and leaves things as they were unless nobody
gives a cause to the failure. -/
theorem transact_astray (hsite : Sited t root R k) (hlinks : NoLinks t R)
    (hitems : ∀ item ∈ m.pairs, IsEntry item (namesOf item.1) ∨
      ∃ front b more last, IsStray item front b more last)
    (hsources : ∀ item ∈ m.pairs, ∀ t' target, GrownAround R t t' →
      t'.nodeItself? item.2 ≠ some (.link target))
    (hstray : ∃ item ∈ m.pairs, ¬ IsEntry item (namesOf item.1)) :
    ∃ fault t', transact root l m t = (.error fault, t') ∧
      ((∃ cause, fault = .caused cause) → Reverted t t' root R k) := by
  have hcreated : ∀ t₁, create root t = (.ok (), t₁) → NoDirLinks t₁ R k := by
    intro t₁ ht₁
    have hgrown := create_grown root t
    rw [ht₁] at hgrown
    exact (hlinks.of_grown hgrown).noDirLinks
  rcases openAside_opened hsite hcreated l with
    ⟨fault, t', hopen, hrev⟩ | ⟨t₁, t₂, a, -, hopen, haside, hopened⟩
  · obtain ⟨fault', heq⟩ : ∃ fault', transact root l m t = (.error fault', t') :=
      transact_of_error hopen
    exact ⟨fault', t', heq, fun _ => hrev⟩
  -- the copying goes well, or fails so that it can be undone, up to the first entry astray
  obtain ⟨done, item, rest, hsplit, hdone, front, b, more, last, hitem⟩ :
      ∃ done item rest, inOrder m = done ++ item :: rest ∧
        (∀ i ∈ done, i ∈ m.pairs ∧ IsEntry i (namesOf i.1)) ∧
        ∃ front b more last, IsStray item front b more last := by
    classical
    obtain ⟨stray, hmem, hno⟩ := hstray
    obtain ⟨item, hfound⟩ : ∃ item,
        (inOrder m).find? (fun i => !decide (IsEntry i (namesOf i.1))) = some item :=
      Option.isSome_iff_exists.1
        (List.find?_isSome.2 ⟨stray, mem_inOrder.2 hmem, by simpa using hno⟩)
    obtain ⟨hitem, done, rest, hsplit, hdone⟩ := List.find?_eq_some_iff_append.1 hfound
    have hmem : ∀ i ∈ done ++ item :: rest, i ∈ m.pairs := fun i hi =>
      mem_inOrder.1 (hsplit ▸ hi)
    refine ⟨done, item, rest, hsplit, fun i hi => ⟨hmem i (by simp [hi]), ?_⟩, ?_⟩
    · simpa using hdone i hi
    · exact (hitems item (hmem item (by simp))).resolve_left (by simpa using hitem)
  have hsorted : done.Pairwise fun i j => ¬ namesOf j.1 <+: namesOf i.1 := by
    have hpairs : (inOrder m).Pairwise _ := inOrder_pairwise
    rw [hsplit] at hpairs
    exact (List.pairwise_append.1 hpairs).1.imp_of_mem fun hi hj hij =>
      hij (hdone _ hi).2 (hdone _ hj).2
  rcases hopened.copyEach_of_noLinks hlinks (fun i hi => (hdone i hi).2)
    (fun i hi => hsources i (hdone i hi).1) hsorted with
    ⟨e, filled, moved, t₃, hcopy, hrec⟩ | ⟨filled, moved, t₃, hcopy, hprog, hlinks₃⟩
  · have hall : copyEach root (root.within (stash a)) (inOrder m) {} t₂ =
        (.error (.system e), undoOf root a filled moved, t₃) := by
      rw [hsplit]
      exact copyEach_append_of_error hcopy
    obtain ⟨t₄, hrun, hrev⟩ := hopened.fail hrec
    exact ⟨_, _, transact_of_refused hopen hall hrun, fun _ => hrev⟩
  have hseat₃ := hopened.seat'.of_sameAround hprog.around
  obtain ⟨fault, u, t₄, hcopy', hfault⟩ := hitem.copyEach_cases (a := a) hseat₃ hlinks₃
    (undoOf root a filled moved) rest
  have hall : copyEach root (root.within (stash a)) (inOrder m) {} t₂ = (.error fault, u, t₄) := by
    rw [hsplit, copyEach_append hcopy, hcopy']
  rcases hfault with rfl | ⟨e, rfl, hundo⟩
  · refine ⟨.nullCharacter, dropDir (root.within (stash a)) t₄, ?_, fun ⟨_, hcause⟩ => by cases hcause⟩
    rw [transact_of_not_copied hopen hall]
    rfl
  obtain ⟨t₅, hrun, hrev⟩ := hopened.fail (k := k) hprog.recoverable
  have hrefused : ∀ {e' t'}, u.run t₄ = (.error (.system e'), t') →
      ∃ fault t', transact root l m t = (.error fault, t') ∧
        ((∃ cause, fault = .caused cause) → Reverted t t' root R k) := by
    intro e' t' he'
    refine ⟨.system e', dropDir (root.within (stash a)) t', ?_, fun ⟨_, hcause⟩ => by cases hcause⟩
    rw [transact_of_not_copied hopen hall, conclude, failInstall, bind_of_error he']
    rfl
  rcases hundo with ⟨rfl, rfl⟩ | ⟨rfl, rfl | ⟨hnull, hpaved⟩⟩
  · exact ⟨_, _, transact_of_refused hopen hall hrun, fun _ => hrev⟩
  · rcases hitem.undo (k := k) hprog.recoverable hseat₃ hopened.null hlinks₃ with
      heq | ⟨e', t', he'⟩
    · exact ⟨_, _, transact_of_refused hopen hall (heq.trans hrun), fun _ => hrev⟩
    · exact hrefused he'
  · obtain ⟨e', t', he'⟩ := hitem.undo_of_paved hprog hseat₃ hlinks₃ hnull hpaved
    exact hrefused he'

/-! ## Requests -/

/-- Whether an entry that is put below `include` has a place there, or goes astray. -/
def Headed (item : String × Path) : Prop :=
  (namesOf item.1).head? = some "include" ∧
    (IsEntry item (namesOf item.1) ∨ ∃ front b more last, IsStray item front b more last)

/-- The files of a header directory go to places below `include`, or all of them go astray. -/
theorem headerMapping_headed {place : String} {pairs : List (String × Path)}
    (hplace : Path.GoesDown place) (h : headerMapping l dir place t = (.ok pairs, t')) :
    ∀ item ∈ pairs, Headed item ∧ item.2 ∈ t.filesUnder dir := by
  have hspelled := Path.spelled_parts place
  have hnames : Path.ofText place = Path.ofNames (Path.ofText place).parts := by
    rw [Path.ofNames, ← hplace.1]
  have hbase : Path.ofText "include" / place =
      Path.ofNames ("include" :: (Path.ofText place).parts) := by
    show Path.ofText "include" ++ Path.ofText place = _
    rw [hnames]
    rfl
  rw [headerMapping_apply, hbase] at h
  split at h
  · cases h
  · cases h
  · cases h
    intro item hitem
    obtain ⟨hunder, d, r, n, -, -, hn, -, hitem'⟩ := entry_of_mem hitem
    have hr : Plain r := fun name hname => isName_of_get? hn name (List.mem_append_right d hname)
    have hhead : (namesOf item.1).head? = some "include" := by
      rw [hitem', namesOf, (spelled_entry hspelled hr).ofText_text]
      rfl
    refine ⟨⟨hhead, ?_⟩, hunder⟩
    by_cases hplain : Plain (Path.ofText place).parts
    · exact .inl (isFrom_of_mem (plain_cons.2 ⟨by decide, hplain⟩) (.inl rfl) hitem).1
    · exact .inr (isStray_of_mem hspelled hplace.descending hplain hitem)

namespace Request

/-- Whether a request names sections of a sysroot, and places for headers that go down. -/
def Inward (r : Request) : Prop :=
  (∀ dir place, (dir, place) ∈ r.headed → Path.GoesDown place) ∧
    ∀ stage name, (stage, name) ∈ r.staged → IsSection name

/-- Whether a request names places below the directories of a sysroot and takes what is there from
outside of it. -/
structure Aimed (t : Tree) (R : Location) (r : Request) : Prop where
  inward : r.Inward
  outside : ∀ dir ∈ r.dirs, Outside t R dir

variable {r : Request}

/-- Each entry of what is asked for gives a file or link below one of the directories to a place, or
goes astray; with headers alone, below `include`. -/
theorem Inward.mapping_ok (hr : r.Inward) (h : r.mapping l t = (.ok m, t')) : ∀ item ∈ m.pairs,
    (Headed item ∨ r.staged ≠ [] ∧ IsEntry item (namesOf item.1)) ∧
      ∃ dir ∈ r.dirs, item.2 ∈ t.filesUnder dir := by
  intro item hitem
  rcases mapping_cases h item hitem with ⟨dir, place, pairs, _, hin, hpairs, hmem⟩ |
    ⟨stage, name, pairs, _, hin, hpairs, hmem⟩
  · obtain ⟨hheaded, hunder⟩ := headerMapping_headed (hr.1 dir place hin) hpairs item hmem
    exact ⟨.inl hheaded, dir, mem_dirs_of_headed hin, hunder⟩
  · have hfrom := sectionMapping_ok (hr.2 stage name hin) hpairs item hmem
    exact ⟨.inr ⟨List.ne_nil_of_mem hin, hfrom.1⟩, stage / name, mem_dirs_of_staged hin, hfrom.2⟩

theorem Aimed.ne_link (hr : r.Aimed t R) (hm : r.mapping l t = (.ok m, t)) :
    ∀ item ∈ m.pairs, ∀ t' target,
      GrownAround R t t' → t'.nodeItself? item.2 ≠ some (.link target) := by
  intro item hitem t' target hgrown
  obtain ⟨-, dir, hdir, hunder⟩ := hr.inward.mapping_ok hm item hitem
  exact (hr.outside dir hdir).ne_link hunder hgrown target

/-- A request that goes down from the directories of a sysroot without links, with sources from
outside of it, installs everything that it asks for, or fails; then it leaves things as they were,
unless nobody gives a cause to the failure. -/
theorem Aimed.run_spec (hr : r.Aimed t R) (hsite : Sited t root R k)
    (hnull : hasNull root.text = false) (hlinks : NoLinks t R) :
    (∃ fault t', r.run root l t = (.error fault, t') ∧
      ((∃ cause, fault = .caused cause) → Kept t t' root R k)) ∨
    ∃ m t', r.mapping l t = (.ok m, t) ∧
      r.run root l t = (.ok ((inOrder m).map fun item => root / item.1), t') ∧
      Installed t t' root R k l m ∧ NoLinks t' R := by
  rcases Request.run_cases root l r t with ⟨fault, hfail⟩ | ⟨m, owned, hm, howned, hnone, hrun⟩
  · exact .inl ⟨fault, t, hfail, fun _ => ⟨.refl t, hsite, fun _ _ _ => rfl⟩⟩
  have hitems : ∀ item ∈ m.pairs, IsEntry item (namesOf item.1) ∨
      ∃ front b more last, IsStray item front b more last := fun item hitem =>
    (hr.inward.mapping_ok hm item hitem).1.elim And.right fun h => .inl h.2
  by_cases hstray : ∃ item ∈ m.pairs, ¬ IsEntry item (namesOf item.1)
  · obtain ⟨fault, t', hfail, hrev⟩ :=
      transact_astray (l := l) hsite hlinks hitems (hr.ne_link hm) hstray
    exact .inl ⟨fault, t', hrun.trans hfail, fun hcaused =>
      (hrev hcaused).kept hsite hnull hlinks hfail⟩
  · have hentries : ∀ item ∈ m.pairs, IsEntry item (namesOf item.1) := fun item hitem => by
      by_contra hno
      exact hstray ⟨item, hitem, hno⟩
    rcases transact_of_noLinks (l := l) hsite hnull hlinks hentries (hr.ne_link hm) howned with
      ⟨fault, t', hfail, hkept⟩ | ⟨t', hok, hinst, hlinks'⟩
    · exact .inl ⟨fault, t', hrun.trans hfail, fun _ => hkept⟩
    · exact .inr ⟨m, t', hm, hrun.trans hok, hinst, hlinks'⟩

end Request

end Sysroot.Install

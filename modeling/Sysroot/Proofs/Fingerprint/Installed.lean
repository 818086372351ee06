import Sysroot.Fingerprint.OfTree
import Sysroot.Proofs.Plan.Again

/-!
# The fingerprint of a sysroot

A sysroot without links has a fingerprint when no path in it is too long
(`Fingerprint.exists_ofTree`), and sysroots with the same in them have the same one
(`Fingerprint.ofTree_of_same`).
-/

namespace Sysroot

open Effect Sysroot.Tree Sysroot.Install

variable {t t' : Tree} {root p : Path} {R : Location} {k : Nat} {name text : String}

namespace Tree

/-- What a wild component selects can be told wherever it is looked for. -/
theorem exists_selectFrom_wild (t : Tree) (p : Path) (text : String) :
    ∃ found, t.selectFrom false p [.wild text] = .ok found := by
  have hstep : ∀ name ∈ t.list p, (if Pattern.matchName text name = true then
      .ok [p.within [name]] else .ok [] : Except SystemError (List Path)) =
      .ok (if Pattern.matchName text name = true then [p.within [name]] else []) := by
    intro name _
    split <;> rfl
  refine ⟨((t.list p).map fun name =>
    if Pattern.matchName text name = true then [p.within [name]] else []).flatten, ?_⟩
  show ((t.list p).mapM fun name => (if Pattern.matchName text name = true then
    .ok [p.within [name]] else .ok [] : Except SystemError (List Path))) >>= _ = _
  rw [except_mapM_of_ok hstep]
  rfl

/-- Everything below a directory can be listed. -/
theorem exists_select_below (hdir : t.query p isDir = .ok true) (text : String) :
    ∃ found, t.select p ⟨[.descend, .wild text], false⟩ = .ok found := by
  choose found hfound using fun d => exists_selectFrom_wild t d text
  refine ⟨Path.sort ((t.dirsUnder p).map found).flatten.eraseDups, ?_⟩
  rw [select, hdir, except_ok_bind, if_pos rfl]
  show (List.flatten <$> (t.dirsUnder p).mapM fun d => t.selectFrom false d [.wild text]) >>= _ = _
  rw [except_mapM_of_ok fun d _ => hfound d]
  rfl

/-- What is listed below a directory is there. -/
theorem Seat.exists_of_mem_select (h : Seat t root R k) (hlinks : NoLinks t R) {names : List String}
    (hne : names ≠ []) (hnames : Descending names) {found : List Path}
    (hselect : t.select (root.within names) ⟨[.descend, .wild text], false⟩ = .ok found) (hp : p ∈ found) :
    ∃ y n, y ≠ [] ∧ p = root.within y ∧ t.get? (R ++ y) = some n := by
  have hdir := query_isDir (select_ne_nil hselect (List.ne_nil_of_mem hp))
  cases (mem_select_iff hdir hselect).1 hp with
  | descend hbelow honward =>
    obtain ⟨more, rfl, hmore⟩ := exists_of_mem_dirsUnder hbelow
    cases honward with
    | wild hlisted _ _ hhere =>
      cases hhere
      rw [Path.within_within] at hlisted
      rw [Path.within_within, Path.within_within]
      rw [list] at hlisted
      split at hlisted
      · next l hlocate =>
        obtain rfl := h.locate_ok hlinks (List.append_ne_nil_of_left_ne_nil hne more)
          (hnames.append hmore) hlocate
        split at hlisted
        · obtain ⟨n, hn⟩ := mem_children.1 hlisted
          refine ⟨_, n, List.append_ne_nil_of_left_ne_nil hne _, rfl, ?_⟩
          rwa [List.append_assoc, List.append_assoc] at hn
        · cases hlisted
      · cases hlisted

/-- The content of a file that is there can be read. -/
theorem Seat.contentOf (h : Seat t root R k) (hlinks : NoLinks t R) {y : List String} (hne : y ≠ [])
    (hfits : Fits root y) {content : List UInt8} {executable : Bool}
    (hfile : t.get? (R ++ y) = some (.file content executable)) :
    t.contentOf (root.within y) = .ok content := by
  have hlocate : t.locate (root.within y) = .ok (R ++ y) := h.locate_of_get? hlinks hne hfits hfile
  rw [Tree.contentOf, place, Tree.placeOr, hasNull_of_locate hlocate hfile, hlocate]
  simp [Except.mapError, bind, Except.bind, hfile, pure, Except.pure]

end Tree

namespace Fingerprint

/-- A section without links in which no path is too long has a fingerprint. -/
theorem exists_ofSection (h : Seat t root R k) (hlinks : NoLinks t R) (hname : isName name = true)
    (hdir : t.get? (R ++ [name]) = some .dir)
    (hfits : ∀ y n, t.get? (R ++ y) = some n → Fits root y) :
    ∃ found, ofSection t root name = .ok found := by
  have hplain : Plain [name] := List.forall_mem_singleton.2 hname
  have hquery : t.query (root.within [name]) Tree.isDir = .ok true := by
    rw [h.query hlinks.askable (List.cons_ne_nil _ _) hplain (hfits _ _ hdir), Tree.isDir,
      (h.node?_eq_some hlinks (List.cons_ne_nil _ _) hplain.descending).2 ⟨hfits _ _ hdir, hdir⟩]
    rfl
  obtain ⟨paths, hpaths⟩ := exists_select_below hquery "*"
  have hthere := fun p (hp : p ∈ paths) => h.exists_of_mem_select hlinks (List.cons_ne_nil _ _)
    hplain.descending hpaths hp
  have hfiles : paths.filterM (t.query · Tree.isFile) = .ok (paths.filter t.isFile) := by
    refine except_filterM_of_ok fun p hp => ?_
    obtain ⟨y, n, hne, rfl, hn⟩ := hthere p hp
    have hy : Plain y := fun name hname => isName_of_get? hn name (List.mem_append_right _ hname)
    exact h.query hlinks.askable hne hy (hfits y n hn)
  have hcontent : ∀ p ∈ paths.filter t.isFile, ∃ content, t.contentOf p = .ok content := by
    intro p hp
    obtain ⟨hmem, hfile⟩ := List.mem_filter.1 hp
    obtain ⟨y, n, hne, rfl, hn⟩ := hthere p hmem
    have hy : Plain y := fun name hname => isName_of_get? hn name (List.mem_append_right _ hname)
    rw [Tree.isFile, (h.node?_eq_some hlinks hne hy.descending).2 ⟨hfits y n hn, hn⟩] at hfile
    cases n with
    | file content executable => exact ⟨content, h.contentOf hlinks hne (hfits y _ hn) hn⟩
    | link target => cases hfile
    | dir => cases hfile
  choose! content hcontent using hcontent
  have hdigests : ∀ p ∈ paths.filter t.isFile, (do
      return (((p.below? root).getD p).text, Sha256.hexDigest (← t.contentOf p)) :
        Except SystemError (String × String)) =
      .ok (((p.below? root).getD p).text, Sha256.hexDigest (content p)) := by
    intro p hp
    rw [hcontent p hp]
    rfl
  refine ⟨(paths.filter t.isFile).map fun p =>
    (((p.below? root).getD p).text, Sha256.hexDigest (content p)), ?_⟩
  rw [ofSection, Path.div_name hname, hpaths, except_ok_bind, hfiles, except_ok_bind]
  exact except_mapM_of_ok hdigests

/-- A sysroot without links in which no path is too long has a fingerprint. -/
theorem exists_ofTree (h : Seat t root R k) (hlinks : NoLinks t R)
    (hdirs : ∀ name ∈ standardSections, t.get? (R ++ [name]) = some .dir)
    (hfits : ∀ y n, t.get? (R ++ y) = some n → Fits root y) (target : String) :
    ∃ f, ofTree t root target = .ok f := by
  have hsections : ∀ name ∈ standardSections, ∃ found, ofSection t root name = .ok found :=
    fun name hname => exists_ofSection h hlinks (isName_of_get? (hdirs name hname) name (by simp))
      (hdirs name hname) hfits
  choose! found hfound using hsections
  refine ⟨{ target := target, values := .ofList (standardSections.map found).flatten }, ?_⟩
  rw [ofTree, except_mapM_of_ok hfound, except_ok_bind]
  rfl

/-- The fingerprint is the same where the sysroot is. -/
theorem ofTree_of_same (h : Seat t root R k) (h' : Seat t' root R k) (hlinks : NoLinks t R)
    (hlinks' : NoLinks t' R) (hsame : ∀ y, t'.get? (R ++ y) = t.get? (R ++ y)) (target : String) :
    ofTree t' root target = ofTree t root target := by
  have hsections : ∀ name ∈ standardSections, ofSection t' root name = ofSection t root name := by
    intro name hname
    have hname : isName name = true := by
      fin_cases hname <;> decide
    have halike : Alike (root.within [name]) (R ++ [name]) t t' :=
      .of_seat h h' hlinks hlinks' (List.cons_ne_nil _ _)
        (Plain.descending (List.forall_mem_singleton.2 hname)) fun y _ => hsame y
    have hpattern : ∀ name', .exact name' ∈ [Pattern.Component.descend, .wild "*"] → Descending [name'] := by
      intro name' hin
      simp at hin
    rw [ofSection, ofSection, Path.div_name hname, halike.select hpattern]
    cases hselect : t.select (root.within [name]) ⟨[.descend, .wild "*"], false⟩ with
    | error e => rfl
    | ok paths =>
      -- what is listed goes down from the section, so the trees are alike there
      have hthere : ∀ p ∈ paths, ∃ L, Alike p L t t' := fun p hp => by
        obtain ⟨more, rfl, hmore⟩ := exists_of_mem_select hpattern hselect hp
        exact ⟨_, halike.within hmore⟩
      have hfiles : paths.filterM (t'.query · Tree.isFile) = paths.filterM (t.query · Tree.isFile) :=
        except_filterM_congr fun p hp => (hthere p hp).elim fun _ hat => hat.query hat.isFile
      rw [except_ok_bind, except_ok_bind, hfiles]
      cases hkept : paths.filterM (t.query · Tree.isFile) with
      | error e => rfl
      | ok files =>
        rw [except_ok_bind, except_ok_bind]
        refine except_mapM_congr fun p hp => ?_
        obtain ⟨L, hat⟩ := hthere p ((except_mem_filterM hkept).1 hp).1
        rw [hat.contentOf]
  rw [ofTree, ofTree, except_mapM_congr hsections]

end Fingerprint

end Sysroot

import Sysroot.Proofs.Text.Lines
import Sysroot.Proofs.Tree.Resolution

/-!
# How paths are spelled

A relative path of names is the path of its text (`ofText_text`), so different ones have
different texts, and a path that is above another has a text before it.  A path below a root,
`root.within names`, is never shorter than one above it, and it has a NUL in it only if the
root has.
-/

namespace Sysroot

open Sysroot.Tree (Plain isName isName_iff)

namespace Path

variable {names more : List String} {root : Path}

/-! ## Relative paths of names -/

/-- The path of names from the working directory. -/
def ofNames (names : List String) : Path := ⟨.relative, names⟩

theorem text_ofNames (h : names ≠ []) : (ofNames names).text = Text.join "/" names := by
  unfold ofNames text
  cases names with
  | nil => exact absurd rfl h
  | cons name names => exact String.empty_append

/-- Whether components are such as a text names: a text cannot name an empty component, a dot or one
with a slash in it. -/
def Spelled (names : List String) : Prop :=
  ∀ name ∈ names, name ≠ "" ∧ name ≠ "." ∧ '/' ∉ name.toList

theorem Spelled.of_plain (h : Plain names) : Spelled names := fun name hname =>
  have h := isName_iff.1 (h name hname)
  ⟨h.1.1, h.1.2.1, h.2.2.1⟩

/-- The path of a text that joins components is the path of the components. -/
theorem Spelled.ofText_text (h : Spelled names) : ofText (ofNames names).text = ofNames names := by
  by_cases hne : names = []
  · rw [hne]
    decide
  rw [text_ofNames hne, ofText, Text.toList_join "/" '/' rfl]
  have hslash : ∀ cs ∈ names.map String.toList, '/' ∉ cs := by
    intro cs hcs
    obtain ⟨name, hname, rfl⟩ := List.mem_map.1 hcs
    exact (h name hname).2.2
  have hanchor : Anchor.ofText (['/'].intercalate (names.map String.toList)) = .relative := by
    obtain ⟨name, rest, rfl⟩ := List.exists_cons_of_ne_nil hne
    obtain ⟨hempty, -, hno⟩ := h name List.mem_cons_self
    obtain ⟨c, r, hc⟩ := List.exists_cons_of_ne_nil (mt String.toList_eq_nil_iff.1 hempty)
    have hfirst : c ≠ '/' := by
      rintro rfl
      exact hno (hc ▸ List.mem_cons_self)
    have hstart : ∃ r', ['/'].intercalate ((name :: rest).map String.toList) = c :: r' := by
      rw [List.map_cons, hc]
      cases rest with
      | nil => exact ⟨r, List.intercalate_singleton⟩
      | cons d rest =>
        rw [List.map_cons, List.intercalate_cons_cons]
        exact ⟨_, rfl⟩
    obtain ⟨r', hr'⟩ := hstart
    rw [hr', Anchor.ofText, List.takeWhile_cons_of_neg (by simpa using hfirst)]
    rfl
  have hparts : partsOfText (['/'].intercalate (names.map String.toList)) = names := by
    rw [partsOfText, Text.partsAt_eq_splitOn,
      List.splitOn_intercalate '/' hslash (by simpa using hne), List.filter_eq_self.2]
    · rw [List.map_map]
      refine (List.map_congr_left fun name _ => ?_).trans (List.map_id names)
      exact String.ofList_toList
    · intro cs hcs
      obtain ⟨name, hname, rfl⟩ := List.mem_map.1 hcs
      obtain ⟨hempty, hdot, -⟩ := h name hname
      have hdot' : name.toList ≠ ['.'] := fun heq => hdot (String.toList_inj.1 heq)
      simp [hempty, hdot']
  rw [hanchor, hparts]
  rfl

/-- Names that can be spelled are told by their text. -/
theorem Spelled.eq_of_text {names' : List String} (h : Spelled names) (h' : Spelled names')
    (heq : (ofNames names).text = (ofNames names').text) : names = names' := by
  have hpath := congrArg ofText heq
  rw [h.ofText_text, h'.ofText_text] at hpath
  exact congrArg parts hpath

/-- The path of a text that joins names is the path of the names. -/
theorem ofText_text (h : Plain names) : ofText (ofNames names).text = ofNames names :=
  (Spelled.of_plain h).ofText_text

/-- The components of a text are such as a text names. -/
theorem spelled_parts (text : String) : Spelled (ofText text).parts := by
  intro name hname
  obtain ⟨cs, hcs, rfl⟩ := List.mem_map.1 hname
  obtain ⟨hpart, hkept⟩ := List.mem_filter.1 hcs
  simp only [decide_eq_true_eq] at hkept
  refine ⟨fun hempty => hkept.1 ?_, fun hdot => hkept.2 ?_, fun hslash => ?_⟩
  · simpa using congrArg String.toList hempty
  · simpa using congrArg String.toList hdot
  · rw [String.toList_ofList] at hslash
    exact Text.not_mem_of_mem_partsAt hpart hslash

/-- The text of a path comes before those of the paths below it. -/
theorem text_ofNames_le (h : names ≠ []) :
    (ofNames names).text ≤ (ofNames (names ++ more)).text := by
  rw [text_ofNames h, text_ofNames (List.append_ne_nil_of_left_ne_nil h more)]
  cases more with
  | nil =>
    rewrite [List.append_nil]
    exact String.le_refl _
  | cons name more =>
    rw [Text.join, Text.join, String.intercalate_append_of_ne_nil h (List.cons_ne_nil _ _)]
    show List.le _ _
    rw [String.append_assoc, String.toList_append]
    exact List.le_append_left

/-! ## Paths below a root -/

/-- The path that names lead to from a root. -/
def within (root : Path) (names : List String) : Path := ⟨root.anchor, root.parts ++ names⟩

@[simp] theorem within_nil : root.within [] = root := by
  rw [within, List.append_nil]

@[simp] theorem within_within : (root.within names).within more = root.within (names ++ more) := by
  rw [within, within, within, List.append_assoc]

@[simp] theorem parts_within : (root.within names).parts = root.parts ++ names := rfl

@[simp] theorem anchor_within : (root.within names).anchor = root.anchor := rfl

theorem append_ofNames : root ++ ofNames names = root.within names := rfl

/-- A text that spells names stands below a root for the path that they lead to. -/
theorem div_text_ofNames (h : Plain names) : root / (ofNames names).text = root.within names := by
  show root ++ ofText _ = _
  rw [ofText_text h, append_ofNames]

theorem div_name {name : String} (h : isName name = true) : root / name = root.within [name] := by
  have hplain : Plain [name] := by simpa using h
  have htext : (ofNames [name]).text = name := by
    rw [text_ofNames (List.cons_ne_nil _ _)]
    exact String.intercalate_singleton
  rw [← htext, div_text_ofNames hplain, htext]

theorem parent_within {name : String} :
    (root.within (names ++ [name])).parent = root.within names := by
  rw [parent, within, within, ← List.append_assoc, List.dropLast_concat]

/-! ### The length of a text -/

theorem size_join_append : (Text.join "/" names).utf8ByteSize ≤
    (Text.join "/" (names ++ more)).utf8ByteSize := by
  by_cases h : names = []
  · rw [h]
    exact Nat.zero_le _
  by_cases h' : more = []
  · rewrite [h', List.append_nil]
    exact Nat.le_refl _
  rw [Text.join, Text.join, String.intercalate_append_of_ne_nil h h', String.utf8ByteSize_append,
    String.utf8ByteSize_append]
  omega

theorem size_join_cons (name : String) (h : names ≠ []) :
    (Text.join "/" (name :: names)).utf8ByteSize =
      name.utf8ByteSize + 1 + (Text.join "/" names).utf8ByteSize := by
  rw [Text.join, show name :: names = [name] ++ names from rfl,
    String.intercalate_append_of_ne_nil (List.cons_ne_nil name []) h, String.intercalate_singleton,
    String.utf8ByteSize_append, String.utf8ByteSize_append]
  rfl

/-- A text whose components are no longer is no longer. -/
theorem size_join_mono
    (h : List.Forall₂ (fun a b : String => a.utf8ByteSize ≤ b.utf8ByteSize) names more) :
    (Text.join "/" names).utf8ByteSize ≤ (Text.join "/" more).utf8ByteSize := by
  induction h with
  | nil => exact Nat.le_refl _
  | @cons a b as bs hab hrest ih =>
    by_cases hnil : as = []
    · obtain rfl : bs = [] := by
        subst hnil
        cases hrest
        rfl
      rw [hnil, Text.join, Text.join, String.intercalate_singleton, String.intercalate_singleton]
      exact hab
    · have hnil' : bs ≠ [] := by
        rintro rfl
        cases hrest
        exact hnil rfl
      rw [size_join_cons a hnil, size_join_cons b hnil']
      omega

theorem size_text_of_ne (h : root.anchor ≠ .relative ∨ root.parts ≠ []) :
    root.text.utf8ByteSize =
      root.anchor.text.utf8ByteSize + (Text.join "/" root.parts).utf8ByteSize := by
  obtain ⟨anchor, parts⟩ := root
  rw [text]
  split
  · next hrel hroot => simp_all
  · rw [String.utf8ByteSize_append]

/-- A path below another has no shorter text. -/
theorem size_text_within (h : Plain more) :
    (root.within names).text.utf8ByteSize ≤ (root.within (names ++ more)).text.utf8ByteSize := by
  by_cases hmore : more = []
  · rewrite [hmore, List.append_nil]
    exact Nat.le_refl _
  have hright : (root.within (names ++ more)).parts ≠ [] := by
    simp [hmore]
  rw [size_text_of_ne (.inr hright)]
  by_cases hleft : root.anchor ≠ .relative ∨ (root.within names).parts ≠ []
  · rw [size_text_of_ne hleft, anchor_within, anchor_within, parts_within, parts_within,
      ← List.append_assoc]
    exact Nat.add_le_add_left size_join_append _
  · -- the text of the empty relative path is a dot
    simp only [not_or, not_not, parts_within, List.append_eq_nil_iff] at hleft
    obtain ⟨hrel, hroot, rfl⟩ := hleft
    obtain ⟨name, rest, rfl⟩ := List.exists_cons_of_ne_nil hmore
    have hname : 0 < name.utf8ByteSize := by
      rw [Nat.pos_iff_ne_zero, ne_eq, String.utf8ByteSize_eq_zero_iff]
      exact (isName_iff.1 (h name List.mem_cons_self)).1.1
    have hfirst : (Text.join "/" [name]).utf8ByteSize ≤
        (Text.join "/" ([name] ++ rest)).utf8ByteSize := size_join_append
    have hdot : (root.within []).text.utf8ByteSize = 1 := by
      rw [within, hrel, hroot]
      rfl
    have hsingle : Text.join "/" [name] = name := String.intercalate_singleton
    rw [hsingle] at hfirst
    rw [hdot, parts_within, hroot]
    simp only [List.nil_append, List.cons_append] at hfirst ⊢
    omega

/-! ### NUL -/

/-- A path has a NUL in it when one of its components does. -/
theorem hasNull_text :
    Tree.hasNull root.text = true ↔ ∃ name ∈ root.parts, '\x00' ∈ name.toList := by
  obtain ⟨anchor, parts⟩ := root
  have hanchor : '\x00' ∉ anchor.text.toList := by
    cases anchor <;> decide
  rw [Tree.hasNull, decide_eq_true_eq, text, ← Text.mem_join "/" '/' rfl (by decide)]
  split
  · next hroot =>
    rw [show parts = [] from hroot]
    show '\x00' ∈ ".".toList ↔ '\x00' ∈ (Text.join "/" []).toList
    decide
  · rw [String.toList_append, List.mem_append]
    exact or_iff_right hanchor

theorem hasNull_within (h : Plain more) :
    Tree.hasNull (root.within more).text = Tree.hasNull root.text := by
  rw [Bool.eq_iff_iff, hasNull_text, hasNull_text, parts_within]
  constructor
  · rintro ⟨name, hname, hnull⟩
    rcases List.mem_append.1 hname with hname | hname
    · exact ⟨name, hname, hnull⟩
    · exact absurd hnull (isName_iff.1 (h name hname)).2.2.2
  · rintro ⟨name, hname, hnull⟩
    exact ⟨name, List.mem_append_left _ hname, hnull⟩

end Path

end Sysroot

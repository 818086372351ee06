import Sysroot.Proofs.Tree.Seat

/-!
# Where the text of a path leads

A program is started by a text, and a text that ends in a slash or a dot says more than the path that
it names.  The text of a path never does: it is the path again (`Path.ofText_text_of_spelled`), it ends
in the last component (`Path.exists_text_eq`), and it leads where the path does
(`Tree.locateText_text`).  Where that is depends on the working directory only for a relative path
(`Tree.locate_home`).
-/

namespace Sysroot

/-! ## The texts of paths -/

namespace Path

variable {p : Path} {names : List String}

/-- The text of spelled components has them as its parts, and no slash comes first. -/
theorem Spelled.parts_join (h : Spelled names) :
    partsOfText (Text.join "/" names).toList = names ∧
      (Text.join "/" names).toList.takeWhile (· = '/') = [] := by
  by_cases hne : names = []
  · subst hne
    exact ⟨by decide, by decide⟩
  have hpath := h.ofText_text
  rw [text_ofNames hne] at hpath
  refine ⟨congrArg parts hpath, List.length_eq_zero_iff.1 ?_⟩
  have hanchor := congrArg anchor hpath
  rw [ofText, Anchor.ofText] at hanchor
  split at hanchor
  · assumption
  · cases hanchor
  · cases hanchor

theorem partsOfText_slash (cs : List Char) : partsOfText ('/' :: cs) = partsOfText cs := by
  rw [partsOfText, Text.partsAt, if_pos rfl, List.filter_cons_of_neg (by simp)]
  rfl

/-- A path of spelled components is the path of its text. -/
theorem ofText_text_of_spelled (h : Spelled p.parts) : ofText p.text = p := by
  obtain ⟨anchor, names⟩ := p
  obtain ⟨hparts, hstart⟩ := h.parts_join
  cases anchor with
  | relative => exact h.ofText_text
  | root =>
    have htext : (text ⟨.root, names⟩).toList = '/' :: (Text.join "/" names).toList := by
      show ("/" ++ Text.join "/" names).toList = _
      rw [String.toList_append]
      rfl
    rw [ofText, htext, partsOfText_slash, hparts, Anchor.ofText, List.takeWhile_cons_of_pos (by simp),
      hstart]
    rfl
  | doubleRoot =>
    have htext : (text ⟨.doubleRoot, names⟩).toList = '/' :: '/' :: (Text.join "/" names).toList := by
      show ("//" ++ Text.join "/" names).toList = _
      rw [String.toList_append]
      rfl
    rw [ofText, htext, partsOfText_slash, partsOfText_slash, hparts, Anchor.ofText,
      List.takeWhile_cons_of_pos (by simp), List.takeWhile_cons_of_pos (by simp), hstart]
    rfl

theorem text_of_parts_ne (h : p.parts ≠ []) : p.text = p.anchor.text ++ Text.join "/" p.parts := by
  obtain ⟨anchor, parts⟩ := p
  rw [text]
  split
  · next hnil => exact absurd hnil h
  · rfl

/-- The text of a path ends in its last component, which stands behind a slash or comes first. -/
theorem exists_text_eq {last : String} (hparts : p.parts = names ++ [last]) :
    ∃ before : List Char, p.text.toList = before ++ last.toList ∧
      (before = [] ∨ before.getLast? = some '/') := by
  have hjoin : Text.join "/" p.parts = (if names = [] then "" else Text.join "/" names ++ "/") ++ last := by
    rw [hparts]
    split
    · next hnil =>
      rw [hnil, String.empty_append]
      exact String.intercalate_singleton
    · exact String.intercalate_append_of_ne_nil ‹_› (List.cons_ne_nil _ _)
  have hne : p.parts ≠ [] := hparts ▸ Tree.concat_ne_nil names last
  rw [text_of_parts_ne hne, hjoin, String.toList_append, String.toList_append, ← List.append_assoc]
  refine ⟨_, rfl, ?_⟩
  split
  · rw [String.toList_empty, List.append_nil]
    cases p.anchor with
    | relative => exact .inl rfl
    | root => exact .inr rfl
    | doubleRoot => exact .inr rfl
  · rw [String.toList_append, ← List.append_assoc]
    exact .inr List.getLast?_concat

/-- There is a slash in the text of a path unless the path is relative and of one component. -/
theorem slash_mem_text (h : Spelled p.parts) :
    '/' ∈ p.text.toList ↔ p.isAbsolute = true ∨ 2 ≤ p.parts.length := by
  obtain ⟨anchor, names⟩ := p
  have habsolute : ∀ a : Anchor, a ≠ .relative → '/' ∈ (text ⟨a, names⟩).toList := by
    intro a ha
    have htext : text ⟨a, names⟩ = a.text ++ Text.join "/" names := by
      cases a with
      | relative => exact absurd rfl ha
      | root => rfl
      | doubleRoot => rfl
    rw [htext, String.toList_append, List.mem_append]
    cases a with
    | relative => exact absurd rfl ha
    | root => exact .inl (by decide)
    | doubleRoot => exact .inl (by decide)
  cases anchor with
  | root => exact iff_of_true (habsolute _ nofun) (.inl rfl)
  | doubleRoot => exact iff_of_true (habsolute _ nofun) (.inl rfl)
  | relative =>
    cases names with
    | nil => decide
    | cons name rest =>
      have htext : text ⟨.relative, name :: rest⟩ = Text.join "/" (name :: rest) :=
        text_ofNames (List.cons_ne_nil _ _)
      rw [htext, Text.toList_join "/" '/' rfl]
      cases rest with
      | nil =>
        have hslash : '/' ∉ name.toList := (h name List.mem_cons_self).2.2
        refine iff_of_false ?_ (by simp [isAbsolute])
        rwa [List.map_singleton, List.intercalate_singleton]
      | cons second rest =>
        refine iff_of_true ?_ (.inr (by simp))
        rw [List.map_cons, List.map_cons, List.intercalate_cons_cons]
        simp

end Path

/-! ## Looking a text up -/

namespace Tree

variable {p : Path} {t : Tree}

/-- A text without a slash or a dot at its end names components and nothing more. -/
theorem textNames_text (h : Path.Spelled p.parts) (hne : p.parts ≠ []) : textNames p.text = p.parts := by
  obtain ⟨names, last, hparts⟩ : ∃ names last, p.parts = names ++ [last] :=
    ⟨_, _, (List.dropLast_concat_getLast hne).symm⟩
  obtain ⟨before, htext, -⟩ := Path.exists_text_eq hparts
  obtain ⟨hempty, hdot, hslash⟩ := h last (hparts ▸ List.mem_append_right _ (List.mem_singleton_self _))
  obtain ⟨cs, c, hlast⟩ : ∃ cs c, last.toList = cs ++ [c] :=
    ⟨_, _, (List.dropLast_concat_getLast (mt String.toList_eq_nil_iff.1 hempty)).symm⟩
  have hc : c ≠ '/' := by
    rintro rfl
    exact hslash (hlast ▸ List.mem_append_right _ (List.mem_singleton_self _))
  have hconcat : p.text.toList = (before ++ cs) ++ [c] := by
    rw [htext, hlast, List.append_assoc]
  have hreverse : p.text.toList.reverse = c :: (before ++ cs).reverse := by
    rw [hconcat, List.reverse_concat]
  have hends : p.text.endsWith "/" = false := by
    rw [Bool.eq_false_iff, ne_eq, String.endsWith_eq_endsWith_toSlice, String.Slice.endsWith_string_iff]
    rintro ⟨front, hfront⟩
    have hslashes : "/".toList = ['/'] := rfl
    rw [hslashes, String.copy_toSlice] at hfront
    have hfinal : front ++ ['/'] = (before ++ cs) ++ [c] := hfront.trans hconcat
    exact hc (List.cons.inj (List.append_inj' hfinal rfl).2).1.symm
  have hnot : endsInDot p.text = false := by
    rw [endsInDot, hreverse, List.dropWhile_cons_of_neg (by simpa using hc)]
    -- a dot at the end is not all of the last component, and so no slash is before it
    have hcs : c = '.' → cs ≠ [] := by
      rintro rfl rfl
      exact hdot (String.toList_inj.1 hlast)
    split
    · next heq =>
      obtain ⟨rfl, hnil⟩ := List.cons.inj heq
      exact absurd (List.append_eq_nil_iff.1 (List.reverse_eq_nil_iff.1 hnil)).2 (hcs rfl)
    · next _ d r _ heq =>
      obtain ⟨rfl, hrest⟩ := List.cons.inj heq
      rw [Bool.and_eq_false_iff, decide_eq_false_iff_not, decide_eq_false_iff_not]
      by_cases hcdot : c = '.'
      · right
        rintro rfl
        obtain ⟨cs', e, rfl⟩ : ∃ cs' e, cs = cs' ++ [e] :=
          ⟨_, _, (List.dropLast_concat_getLast (hcs hcdot)).symm⟩
        rw [← List.append_assoc, List.reverse_concat] at hrest
        obtain rfl := (List.cons.inj hrest).1
        exact hslash (by simp [hlast])
      · exact .inl hcdot
    · rfl
  rw [textNames, hnot, hends, Path.ofText_text_of_spelled h]
  rfl

/-- The text of a path leads where the path does. -/
theorem locateText_text (h : Path.Spelled p.parts) (hne : p.parts ≠ []) :
    t.locateText p.text = t.locate p := by
  have htext : p.text ≠ "" := by
    intro heq
    have hnames := textNames_text h hne
    rw [heq] at hnames
    exact hne hnames.symm
  rw [locateText, locate, if_neg htext, textNames_text h hne, Path.ofText_text_of_spelled h]

/-! ## Looking a path up from another directory -/

theorem stretch_home (t : Tree) (d : Location) (aim : Aim) (here : Location) (names : List String) :
    stretch { t with home := d } aim here names = stretch t aim here names := by
  induction names generalizing here with
  | nil => rfl
  | cons name rest ih =>
    rw [stretch, stretch]
    simp only [ih]
    rfl

theorem locateFrom_home (t : Tree) (d : Location) (aim : Aim) (k : Nat) (here : Location)
    (names : List String) :
    locateFrom { t with home := d } aim k here names = locateFrom t aim k here names := by
  induction k generalizing here names with
  | zero =>
    unfold locateFrom
    rw [stretch_home]
    cases stretch t aim here names <;> rfl
  | succ k ih =>
    unfold locateFrom
    rw [stretch_home]
    cases stretch t aim here names with
    | arrived l => rfl
    | refused reason => rfl
    | link here names => exact ih here names

/-- An absolute path leads to the same place from every directory. -/
theorem locate_home (t : Tree) (d : Location) (h : p.isAbsolute = true) :
    Tree.locate { t with home := d } p = t.locate p := by
  rw [locate, locate, startOf, startOf, if_pos h, if_pos h, locateFrom_home]

end Tree

end Sysroot

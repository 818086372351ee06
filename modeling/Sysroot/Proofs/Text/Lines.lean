import Mathlib
import Sysroot.Text.Lines

/-!
# Lists in text

Splitting a text at a separator and joining parts with it undo each other: the parts are the one list of
texts without the separator that is joined to the text (`split_eq_iff`).
-/

namespace Sysroot.Text

variable {sep : Char} {mark s : String} {parts : List String}

/-- The parts between separators are those that the library splits off. -/
theorem partsAt_eq_splitOn (sep : Char) (cs : List Char) : partsAt sep cs = cs.splitOn sep := by
  induction cs with
  | nil => rfl
  | cons c r ih =>
    rw [partsAt, List.splitOn_cons_eq_if_modifyHead, ← ih]
    by_cases hc : c = sep
    · simp [hc]
    · simp only [hc, if_false, beq_iff_eq]
      cases hr : partsAt sep r with
      | nil => exact absurd hr (partsAt_ne_nil sep r)
      | cons part parts => rfl

/-- No separator is in the parts between separators. -/
theorem not_mem_of_mem_partsAt {sep : Char} {cs part : List Char} (h : part ∈ partsAt sep cs) :
    sep ∉ part := by
  induction cs generalizing part with
  | nil =>
    rw [partsAt, List.mem_singleton] at h
    exact h ▸ List.not_mem_nil
  | cons c r ih =>
    rw [partsAt] at h
    split at h
    · rcases List.mem_cons.1 h with rfl | h
      · exact List.not_mem_nil
      · exact ih h
    · next hc =>
      cases hr : partsAt sep r with
      | nil => exact absurd hr (partsAt_ne_nil sep r)
      | cons first rest =>
        rw [hr] at h ih
        rcases List.mem_cons.1 h with rfl | h
        · have hfirst := ih List.mem_cons_self
          exact fun hmem => (List.mem_cons.1 hmem).elim (fun heq => hc heq.symm) hfirst
        · exact ih (List.mem_cons_of_mem _ h)

/-- The parts of two texts with a separator between them are those of the one and those of the other. -/
theorem partsAt_append (sep : Char) (cs cs' : List Char) :
    partsAt sep (cs ++ sep :: cs') = partsAt sep cs ++ partsAt sep cs' := by
  induction cs with
  | nil => simp [partsAt]
  | cons c r ih =>
    rw [List.cons_append, partsAt, partsAt, ih]
    by_cases hc : c = sep
    · rw [if_pos hc, if_pos hc]
      rfl
    · rw [if_neg hc, if_neg hc]
      cases hr : partsAt sep r with
      | nil => exact absurd hr (partsAt_ne_nil sep r)
      | cons part parts => rfl

theorem toList_join (mark : String) (sep : Char) (hmark : mark.toList = [sep]) (parts : List String) :
    (join mark parts).toList = [sep].intercalate (parts.map String.toList) := by
  rw [join, String.toList_intercalate, hmark]

/-- Every character of joined parts is a separator or one of a part's. -/
theorem mem_join (mark : String) (sep : Char) (hmark : mark.toList = [sep]) {c : Char} (hc : c ≠ sep) :
    c ∈ (join mark parts).toList ↔ ∃ part ∈ parts, c ∈ part.toList := by
  rw [toList_join mark sep hmark]
  induction parts with
  | nil => simp
  | cons first parts ih =>
    cases parts with
    | nil => simp
    | cons second parts =>
      rw [List.map_cons, List.map_cons, List.intercalate_cons_cons, ← List.map_cons,
        List.mem_append, List.mem_append, ih]
      simp [hc]

theorem split_append (hmark : mark.toList = [sep]) (s t : String) :
    split sep (s ++ mark ++ t) = split sep s ++ split sep t := by
  rw [split, String.toList_append, String.toList_append, hmark, List.append_assoc,
    List.singleton_append, partsAt_append, List.map_append, split, split]

/-- Parts without the separator are split off again after they were joined. -/
theorem split_join (hmark : mark.toList = [sep]) (hne : parts ≠ [])
    (h : ∀ part ∈ parts, sep ∉ part.toList) : split sep (join mark parts) = parts := by
  have hparts : ∀ cs ∈ parts.map String.toList, sep ∉ cs := by
    intro cs hcs
    obtain ⟨part, hpart, rfl⟩ := List.mem_map.1 hcs
    exact h part hpart
  rw [split, toList_join mark sep hmark, partsAt_eq_splitOn,
    List.splitOn_intercalate sep hparts (by simpa using hne), List.map_map]
  exact (List.map_congr_left fun part _ => String.ofList_toList).trans (List.map_id parts)

/-- The parts that a text is split into are joined to the text. -/
theorem join_split (hmark : mark.toList = [sep]) (s : String) : join mark (split sep s) = s := by
  have hid : String.toList ∘ String.ofList = id := funext fun _ => String.toList_ofList
  rw [← String.toList_inj, toList_join mark sep hmark, split, List.map_map, hid, List.map_id,
    partsAt_eq_splitOn, List.intercalate_splitOn]

/-- What stands before the first separator and what stands after it are told by the text. -/
theorem append_cons_inj {before before' after after' : List Char} (h : sep ∉ before) (h' : sep ∉ before')
    (heq : before ++ sep :: after = before' ++ sep :: after') : before = before' ∧ after = after' := by
  induction before generalizing before' with
  | nil =>
    cases before' with
    | nil => exact ⟨rfl, (List.cons.inj heq).2⟩
    | cons c before' => exact absurd ((List.cons.inj heq).1 ▸ List.mem_cons_self) h'
  | cons c before ih =>
    cases before' with
    | nil => exact absurd ((List.cons.inj heq).1 ▸ List.mem_cons_self) h
    | cons c' before' =>
      obtain ⟨rfl, hrest⟩ := List.cons.inj heq
      obtain ⟨rfl, rfl⟩ := ih (List.not_mem_of_not_mem_cons h) (List.not_mem_of_not_mem_cons h') hrest
      exact ⟨rfl, rfl⟩

theorem join_singleton (mark part : String) : join mark [part] = part := by
  rw [join, String.intercalate_singleton]

theorem join_concat (hne : parts ≠ []) (part : String) :
    join mark (parts ++ [part]) = join mark parts ++ mark ++ part := by
  induction parts with
  | nil => exact absurd rfl hne
  | cons first parts ih =>
    cases parts with
    | nil => rw [List.singleton_append, join, String.intercalate_cons_cons, String.intercalate_singleton,
        join_singleton]
    | cons second parts =>
      have hrest := ih (List.cons_ne_nil _ _)
      rw [join] at hrest ⊢
      rw [List.cons_append, String.intercalate_cons_of_ne_nil (by simp), hrest, join, join,
        String.intercalate_cons_cons]
      simp only [String.append_assoc]

/-- Joined parts are not empty when the first of them is not. -/
theorem join_ne_empty {first : String} (h : first ≠ "") (mark : String) (parts : List String) :
    join mark (first :: parts) ≠ "" := by
  cases parts with
  | nil => rwa [join_singleton]
  | cons second parts =>
    rw [join, String.intercalate_cons_cons]
    simp [h]

theorem split_ne_nil (sep : Char) (s : String) : split sep s ≠ [] :=
  mt List.map_eq_nil_iff.1 (partsAt_ne_nil sep s.toList)

theorem not_mem_of_mem_split {part : String} (h : part ∈ split sep s) : sep ∉ part.toList := by
  obtain ⟨cs, hcs, rfl⟩ := List.mem_map.1 h
  rw [String.toList_ofList]
  exact not_mem_of_mem_partsAt hcs

/-- A text is split into the one list of texts without the separator that is joined to it. -/
theorem split_eq_iff (hmark : mark.toList = [sep]) : split sep s = parts ↔
    parts ≠ [] ∧ (∀ part ∈ parts, sep ∉ part.toList) ∧ join mark parts = s := by
  constructor
  · rintro rfl
    exact ⟨split_ne_nil sep s, fun part => not_mem_of_mem_split, join_split hmark s⟩
  · rintro ⟨hne, h, rfl⟩
    exact split_join hmark hne h

end Sysroot.Text

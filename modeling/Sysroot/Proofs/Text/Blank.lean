import Mathlib
import Sysroot.Text.Blank

/-!
# Blanks around a text

A text with blanks at its ends has one part between them that neither begins nor ends with a blank, and
that part is what is left when the blanks are dropped (`trim_eq_iff`, `strip_eq_iff`).
-/

namespace Sysroot.Text

variable {cs core : List Char} {s t : String}

/-- Whether a text neither begins nor ends with a blank. -/
def Trimmed (cs : List Char) : Prop :=
  (∀ c ∈ cs.head?, isBlank c = false) ∧ ∀ c ∈ cs.getLast?, isBlank c = false

theorem trimmed_of_no_blank (h : ∀ c ∈ cs, isBlank c = false) : Trimmed cs :=
  ⟨fun c hc => h c (List.mem_of_mem_head? hc), fun c hc => h c (List.mem_of_mem_getLast? hc)⟩

theorem trimRight_concat (cs : List Char) (c : Char) :
    trimRight (cs ++ [c]) = if isBlank c then trimRight cs else cs ++ [c] := by
  induction cs with
  | nil => rfl
  | cons d cs ih =>
    rw [List.cons_append, trimRight, ih]
    by_cases hblank : isBlank c = true
    · rw [if_pos hblank, if_pos hblank]
      rfl
    · rw [if_neg hblank, if_neg hblank]
      cases cs <;> rfl

/-- Dropping the blanks at the end is dropping from the right. -/
theorem trimRight_eq (cs : List Char) : trimRight cs = cs.rdropWhile isBlank := by
  induction cs using List.reverseRecOn with
  | nil => rfl
  | append_singleton cs c ih => rw [trimRight_concat, List.rdropWhile_concat, ih]

theorem trimRight_append_of_blank {after : List Char} (h : ∀ c ∈ after, isBlank c = true) :
    trimRight (cs ++ after) = trimRight cs := by
  induction after using List.reverseRecOn with
  | nil => rw [List.append_nil]
  | append_singleton after c ih =>
    rw [← List.append_assoc, trimRight_concat, if_pos (h c (by simp))]
    exact ih fun d hd => h d (List.mem_append_left _ hd)

theorem trimRight_of_trimmed (h : Trimmed cs) : trimRight cs = cs := by
  rw [trimRight_eq, List.rdropWhile_eq_self_iff]
  intro hne
  rw [h.2 _ (List.getLast?_eq_some_getLast hne)]
  exact Bool.false_ne_true

theorem dropWhile_of_trimmed (h : Trimmed core) (after : List Char)
    (hafter : ∀ c ∈ after, isBlank c = true) :
    trimRight ((core ++ after).dropWhile isBlank) = core := by
  cases core with
  | nil =>
    rw [List.nil_append, List.dropWhile_eq_nil_iff.2 hafter]
    rfl
  | cons c core =>
    have hc : isBlank c = false := h.1 c rfl
    rw [List.cons_append, List.dropWhile_cons_of_neg (by rw [hc]; exact Bool.false_ne_true),
      ← List.cons_append, trimRight_append_of_blank hafter, trimRight_of_trimmed h]

/-- What is left of a text without the blanks at its ends is its part between blanks that neither begins
nor ends with one. -/
theorem trim_eq_iff : trim cs = core ↔ Trimmed core ∧ ∃ before after : List Char,
    (∀ c ∈ before ++ after, isBlank c = true) ∧ cs = before ++ core ++ after := by
  constructor
  · rintro rfl
    have htrim : trim cs = (cs.dropWhile isBlank).rdropWhile isBlank := trimRight_eq _
    have hsplit : cs = cs.takeWhile isBlank ++ trim cs ++ (cs.dropWhile isBlank).rtakeWhile isBlank := by
      rw [htrim, List.append_assoc, List.rdropWhile_append_rtakeWhile,
        List.takeWhile_append_dropWhile]
    refine ⟨⟨fun c hc => ?_, fun c hc => ?_⟩, _, _, fun c hc => ?_, hsplit⟩
    · -- the first character that is left is the first that is not blank
      have hpre : trim cs <+: cs.dropWhile isBlank := htrim ▸ List.rdropWhile_prefix _ _
      have hhead : (cs.dropWhile isBlank).head? = some c := by
        obtain ⟨rest, hrest⟩ := hpre
        rw [← hrest, List.head?_append, hc]
        rfl
      have hnot := List.head?_dropWhile_not isBlank cs
      rw [hhead] at hnot
      simpa using hnot
    · rw [htrim] at hc
      have hne : (cs.dropWhile isBlank).rdropWhile isBlank ≠ [] := by
        intro hnil
        rw [hnil] at hc
        cases hc
      have hlast := List.rdropWhile_last_not isBlank _ hne
      rw [List.getLast?_eq_some_getLast hne] at hc
      obtain rfl := Option.some.inj hc
      simpa using hlast
    · rcases List.mem_append.1 hc with hc | hc
      · exact List.mem_takeWhile_imp hc
      · exact List.mem_rtakeWhile_imp hc
  · rintro ⟨htrimmed, before, after, hblank, rfl⟩
    rw [trim, List.append_assoc, List.dropWhile_append_of_pos fun c hc =>
      hblank c (List.mem_append_left _ hc)]
    exact dropWhile_of_trimmed htrimmed after fun c hc => hblank c (List.mem_append_right _ hc)

/-- Whether a text is another one with blanks around it. -/
def Padded (core text : String) : Prop := ∃ before after : List Char,
  (∀ c ∈ before ++ after, isBlank c = true) ∧ text.toList = before ++ core.toList ++ after

theorem strip_eq_iff : strip s = t ↔ Trimmed t.toList ∧ Padded t s := by
  rw [strip, Padded, ← trim_eq_iff, ← String.toList_inj, String.toList_ofList]

/-- A text without blanks is what is left of exactly the texts that have blanks around it. -/
theorem strip_eq_iff_padded (h : ∀ c ∈ t.toList, isBlank c = false) : strip s = t ↔ Padded t s :=
  strip_eq_iff.trans (and_iff_right (trimmed_of_no_blank h))

theorem strip_of_no_blank (h : ∀ c ∈ t.toList, isBlank c = false) : strip t = t :=
  (strip_eq_iff_padded h).2 ⟨[], [], nofun, by simp⟩

end Sysroot.Text

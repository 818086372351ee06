import Sysroot.Proofs.Json.Numbers
import Sysroot.Proofs.Json.Strings
import Sysroot.Proofs.Text.Utf8
import Sysroot.Text.Lines

/-!
# Reading written values

A value of texts, words, numbers, arrays and objects is read back from what is written for it, in
either layout (`Readable.readsBack`), and so is the value of a whole text (`read_write`).  What is
written is printable ASCII (`Readable.printable_write`), with line feeds in a layout that has them
(`Readable.isAscii_write`), so it has no line ends that a file would change (`unifyLineEnds_eq`).
-/

namespace Sysroot.Json

variable {lay : Layout} {v : Json} {c : Char} {cs rest : List Char}
  {limit depth fuel level : Nat}

/-! ## White space -/

/-- Whether characters are blanks and line feeds. -/
def Blank (cs : List Char) : Prop := ∀ c ∈ cs, c = ' ' ∨ c = '\n'

theorem skipSpace_blank (h : Blank cs) (rest : List Char) :
    skipSpace (cs ++ rest) = skipSpace rest := by
  refine List.dropWhile_append_of_pos fun c hc => ?_
  rcases h c hc with rfl | rfl <;> decide

theorem skipSpace_cons (h : isSpace c = false) : skipSpace (c :: rest) = c :: rest := by
  rw [skipSpace, List.dropWhile_cons_of_neg (by simp [h])]

/-- Whether a layout breaks values with blanks and line feeds. -/
def Layout.IsBlank (lay : Layout) : Prop :=
  ∀ level, Blank (lay.breakAt level) ∧ Blank (lay.gapAt level)

theorem isBlank_line : Layout.line.IsBlank := fun _ =>
  ⟨fun _ hc => absurd hc List.not_mem_nil, fun _ hc => .inl (List.mem_singleton.1 hc)⟩

theorem isBlank_indented : Layout.indented.IsBlank := by
  have hline : ∀ level, Blank ('\n' :: List.replicate (2 * level) ' ') := by
    intro level c hc
    rcases List.mem_cons.1 hc with rfl | hc
    · exact .inr rfl
    · exact .inl (List.mem_replicate.1 hc).2
  exact fun level => ⟨hline level, hline level⟩

/-! ## Values that can be read back -/

/-- Whether a value has whole numbers of at most `limit` digits in it and other numbers with the text of
one, no field name twice in an object, and arrays and objects at most `depth` deep in each other. -/
inductive Readable (limit : Nat) : Nat → Json → Prop where
  | null {depth : Nat} : Readable limit depth .null
  | bool {depth : Nat} (b : Bool) : Readable limit depth (.bool b)
  | int {depth : Nat} {n : Int} (h : digitCount n ≤ limit) : Readable limit depth (.int n)
  | real {depth : Nat} {text : String} (h : RealText text.toList) : Readable limit depth (.real text)
  | str {depth : Nat} (s : String) : Readable limit depth (.str s)
  | arr {depth : Nat} {items : List Json} (h : ∀ v ∈ items, Readable limit depth v) :
      Readable limit (depth + 1) (.arr items)
  | obj {depth : Nat} {fields : List (String × Json)} (hkeys : (fields.map Prod.fst).Nodup)
      (h : ∀ f ∈ fields, Readable limit depth f.2) : Readable limit (depth + 1) (.obj fields)

/-- What is written starts with a character that is neither blank nor a closing bracket. -/
theorem Readable.write_start (h : Readable limit depth v) (lay : Layout) (level : Nat) :
    ∃ c r, write lay level v = c :: r ∧ isSpace c = false ∧ c ≠ ']' ∧ c ≠ '\x7d' := by
  cases h with
  | null => exact ⟨'n', _, rfl, by decide⟩
  | bool b =>
    cases b with
    | false => exact ⟨'f', _, rfl, by decide⟩
    | true => exact ⟨'t', _, rfl, by decide⟩
  | @int depth n _ =>
    obtain ⟨c, r, hstart, hspace, hother⟩ := toString_start n
    exact ⟨c, r, hstart, hspace, hother _ (by simp), hother _ (by simp)⟩
  | @real depth text hreal =>
    obtain ⟨c, r, hstart, hspace, hother⟩ := hreal.start
    exact ⟨c, r, hstart, hspace, hother _ (by simp), hother _ (by simp)⟩
  | str s => exact ⟨'"', _, rfl, by decide⟩
  | @arr depth items _ =>
    cases items with
    | nil => exact ⟨'[', _, rfl, by decide⟩
    | cons w r => exact ⟨'[', _, rfl, by decide⟩
  | @obj depth fields _ _ =>
    rcases fields with _ | ⟨⟨k, w⟩, r⟩
    · exact ⟨'\x7b', _, rfl, by decide⟩
    · exact ⟨'\x7b', _, rfl, by decide⟩

/-- Whether a value is read back from what is written for it, whatever comes after a blank, a comma
or a closing bracket that follows. -/
def ReadsBack (limit : Nat) (lay : Layout) (depth : Nat) (v : Json) : Prop :=
  ∀ fuel level rest, Delimited rest → (write lay level v).length ≤ fuel →
    readValue limit fuel depth (write lay level v ++ rest) = .ok (v, rest)

theorem Blank.delimited (h : Blank cs) : Delimited cs := by
  intro c hc
  rcases h c (List.mem_of_mem_head? hc) with rfl | rfl <;> decide

theorem delimited_blank (h : Blank cs) (hc : c = ',' ∨ c = ']' ∨ c = '\x7d') :
    Delimited (cs ++ c :: rest) := by
  cases cs with
  | nil => exact delimited_cons (.inr hc)
  | cons d cs =>
    refine delimited_cons (.inl ?_)
    rcases h d List.mem_cons_self with rfl | rfl <;> decide

/-! ## Items and fields -/

/-- Items are read back up to the closing bracket. -/
theorem readItems_write (hlay : lay.IsBlank) {items : List Json}
    (hread : ∀ w ∈ v :: items, Readable limit depth w ∧ ReadsBack limit lay depth w)
    (hblank : Blank cs) (done : List Json)
    (hfuel : (write lay level v).length + (writeItems lay level items).length < fuel) :
    readItems limit fuel depth done
        (write lay level v ++ (writeItems lay level items ++ (cs ++ ']' :: rest))) =
      .ok (.arr (done.reverse ++ v :: items), rest) := by
  induction items generalizing v done fuel with
  | nil =>
    obtain ⟨fuel, rfl⟩ := Nat.exists_eq_add_of_lt (Nat.zero_lt_of_lt hfuel)
    rw [Nat.zero_add] at hfuel ⊢
    rw [writeItems, List.nil_append, readItems,
      (hread v List.mem_cons_self).2 _ _ _ (delimited_blank hblank (by simp)) (by omega)]
    simp only [bind, Except.bind, skipSpace_blank hblank,
      skipSpace_cons (show isSpace ']' = false by decide), List.reverse_cons]
    rfl
  | cons w items ih =>
    obtain ⟨fuel, rfl⟩ := Nat.exists_eq_add_of_lt (Nat.zero_lt_of_lt hfuel)
    rw [Nat.zero_add] at hfuel ⊢
    have hw := hread w (List.mem_cons_of_mem v List.mem_cons_self)
    obtain ⟨c, r, hstart, hspace, -⟩ := hw.1.write_start lay level
    have hskip : skipSpace (lay.gapAt level ++ (write lay level w ++
        (writeItems lay level items ++ (cs ++ ']' :: rest)))) =
        write lay level w ++ (writeItems lay level items ++ (cs ++ ']' :: rest)) := by
      rw [skipSpace_blank (hlay level).2, hstart, List.cons_append, skipSpace_cons hspace]
    have hlen : (writeItems lay level (w :: items)).length = 1 + (lay.gapAt level).length +
        (write lay level w).length + (writeItems lay level items).length := by
      simp [writeItems]
      omega
    obtain ⟨c', r', hstart', -⟩ := (hread v List.mem_cons_self).1.write_start lay level
    have hpos : 0 < (write lay level v).length := by
      rw [hstart']
      exact Nat.succ_pos _
    rw [writeItems, List.cons_append, List.cons_append, List.cons_append, readItems,
      (hread v List.mem_cons_self).2 _ _ _ (delimited_cons (by simp)) (by omega)]
    simp only [bind, Except.bind, List.append_assoc,
      skipSpace_cons (show isSpace ',' = false by decide), hskip]
    rw [ih (fun u hu => hread u (List.mem_cons_of_mem v hu)) (v :: done) (by omega)]
    simp

theorem setField_of_new {fields : List (String × Json)} {k : String}
    (h : k ∉ fields.map Prod.fst) (v : Json) : setField fields k v = fields ++ [(k, v)] := by
  rw [setField, if_neg]
  rw [List.any_eq_true]
  rintro ⟨f, hf, heq⟩
  exact h (List.mem_map.2 ⟨f, hf, of_decide_eq_true heq⟩)

/-- A field is read up to what follows its value. -/
theorem readFields_field (hread : Readable limit depth v ∧ ReadsBack limit lay depth v) {k : String}
    {done : List (String × Json)} (hnew : k ∉ done.map Prod.fst) (hrest : Delimited rest)
    (hfuel : (write lay level v).length ≤ fuel) :
    readFields limit (fuel + 1) depth done
        (writeString k ++ (':' :: ' ' :: (write lay level v ++ rest))) =
      match skipSpace rest with
      | '\x7d' :: rest => .ok (.obj (done ++ [(k, v)]), rest)
      | ',' :: rest => readFields limit fuel depth (done ++ [(k, v)]) (skipSpace rest)
      | rest => refuse .comma rest := by
  obtain ⟨c, r, hstart, hspace, -⟩ := hread.1.write_start lay level
  have hskip : skipSpace (' ' :: (write lay level v ++ rest)) = write lay level v ++ rest := by
    have hblank : Blank [' '] := fun c hc => .inl (List.mem_singleton.1 hc)
    rw [← List.singleton_append, skipSpace_blank hblank, hstart, List.cons_append,
      skipSpace_cons hspace]
  have hquoted : writeString k ++ (':' :: ' ' :: (write lay level v ++ rest)) =
      '"' :: (k.toList.flatMap writeChar ++ '"' :: ':' :: ' ' :: (write lay level v ++ rest)) := by
    simp [writeString]
  rw [hquoted, readFields]
  simp only [readString_write, bind, Except.bind,
    skipSpace_cons (show isSpace ':' = false by decide),
    hskip, hread.2 _ _ _ hrest hfuel, List.reverse_nil, List.nil_append, String.ofList_toList,
    setField_of_new hnew]
  rfl

/-- Fields are read back up to the closing brace. -/
theorem readFields_write (hlay : lay.IsBlank) {fields done : List (String × Json)} {k : String}
    (hread : ∀ f ∈ (k, v) :: fields, Readable limit depth f.2 ∧ ReadsBack limit lay depth f.2)
    (hkeys : ((done ++ (k, v) :: fields).map Prod.fst).Nodup) (hblank : Blank cs)
    (hfuel : (write lay level v).length + (writeFields lay level fields).length < fuel) :
    readFields limit fuel depth done (writeString k ++ (':' :: ' ' :: (write lay level v ++
        (writeFields lay level fields ++ (cs ++ '\x7d' :: rest))))) =
      .ok (.obj (done ++ (k, v) :: fields), rest) := by
  have hnew : k ∉ done.map Prod.fst := by
    intro hmem
    rw [List.map_append, List.map_cons] at hkeys
    exact (List.nodup_append.1 hkeys).2.2 k hmem k List.mem_cons_self rfl
  induction fields generalizing k v done fuel with
  | nil =>
    obtain ⟨fuel, rfl⟩ := Nat.exists_eq_add_of_lt (Nat.zero_lt_of_lt hfuel)
    rw [Nat.zero_add] at hfuel ⊢
    have hv : Readable limit depth v ∧ ReadsBack limit lay depth v := hread (k, v) List.mem_cons_self
    rw [writeFields, List.nil_append,
      readFields_field hv hnew (delimited_blank hblank (by simp)) (by omega), skipSpace_blank hblank,
      skipSpace_cons (show isSpace '\x7d' = false by decide)]
    rfl
  | cons f fields ih =>
    obtain ⟨k', w⟩ := f
    obtain ⟨fuel, rfl⟩ := Nat.exists_eq_add_of_lt (Nat.zero_lt_of_lt hfuel)
    rw [Nat.zero_add] at hfuel ⊢
    have hlen : (writeFields lay level ((k', w) :: fields)).length = 1 + (lay.gapAt level).length +
        (writeString k').length + 2 + (write lay level w).length +
          (writeFields lay level fields).length := by
      simp [writeFields]
      omega
    have hskip :
        skipSpace (lay.gapAt level ++ (writeString k' ++ (':' :: ' ' :: (write lay level w ++
        (writeFields lay level fields ++ (cs ++ '\x7d' :: rest)))))) =
        writeString k' ++ (':' :: ' ' :: (write lay level w ++
          (writeFields lay level fields ++ (cs ++ '\x7d' :: rest)))) := by
      rw [skipSpace_blank (hlay level).2]
      exact skipSpace_cons (by decide)
    have hkeys' : ((done ++ [(k, v)] ++ (k', w) :: fields).map Prod.fst).Nodup := by
      rwa [List.append_assoc]
    have hnew' : k' ∉ (done ++ [(k, v)]).map Prod.fst := by
      intro hmem
      rw [List.map_append, List.map_cons] at hkeys'
      exact (List.nodup_append.1 hkeys').2.2 k' hmem k' List.mem_cons_self rfl
    have hv : Readable limit depth v ∧ ReadsBack limit lay depth v := hread (k, v) List.mem_cons_self
    rw [writeFields, List.cons_append, List.cons_append, List.cons_append, List.cons_append,
      readFields_field hv hnew (delimited_cons (by simp)) (by omega)]
    simp only [List.cons_append, List.append_assoc,
      skipSpace_cons (show isSpace ',' = false by decide), hskip]
    rw [ih (fun f hf => hread f (List.mem_cons_of_mem _ hf)) hkeys' (by omega) hnew',
      List.append_assoc]
    rfl

/-! ## Values -/

/-- An array whose bracket is not closed at once has its items read. -/
theorem readValue_items (hblank : Blank cs) (hspace : isSpace c = false) (hclose : c ≠ ']') :
    readValue limit (fuel + 1) (depth + 1) ('[' :: (cs ++ c :: rest)) =
      readItems limit fuel depth [] (c :: rest) := by
  rw [readValue]
  simp only [skipSpace_blank hblank, skipSpace_cons hspace]
  split
  · next heq =>
    cases heq
    exact absurd rfl hclose
  · rfl

/-- An object whose brace is not closed at once has its fields read. -/
theorem readValue_fields (hblank : Blank cs) (hspace : isSpace c = false) (hclose : c ≠ '\x7d') :
    readValue limit (fuel + 1) (depth + 1) ('\x7b' :: (cs ++ c :: rest)) =
      readFields limit fuel depth [] (c :: rest) := by
  rw [readValue]
  simp only [skipSpace_blank hblank, skipSpace_cons hspace]
  split
  · next heq =>
    cases heq
    exact absurd rfl hclose
  · rfl

/-- What starts no text, array or object is a word or a number. -/
theorem readValue_scalar (hquote : c ≠ '"') (hbracket : c ≠ '[') (hbrace : c ≠ '\x7b') :
    readValue limit (fuel + 1) depth (c :: rest) = readScalar limit (c :: rest) := by
  unfold readValue
  split <;> simp_all

/-- A value that is written like a number is read back when it is read as one. -/
theorem readsBack_of_scalar (hwrite : ∀ level, write lay level v = cs) (hstart : StartsScalar cs)
    (hread : ∀ rest, Delimited rest → readScalar limit (cs ++ rest) = .ok (v, rest)) :
    ReadsBack limit lay depth v := by
  intro fuel level rest hrest hfuel
  obtain ⟨c, r, rfl, -, hother⟩ := hstart
  have hscalar := hread rest hrest
  rw [hwrite] at hfuel ⊢
  obtain ⟨fuel, rfl⟩ := Nat.exists_eq_add_of_lt hfuel
  rw [List.cons_append] at hscalar ⊢
  rw [← hscalar]
  exact readValue_scalar (hother _ (by simp)) (hother _ (by simp)) (hother _ (by simp))

/-- A value is read back from what is written for it. -/
theorem Readable.readsBack (hlay : lay.IsBlank) (h : Readable limit depth v) :
    ReadsBack limit lay depth v := by
  induction h with
  | null =>
    intro fuel level rest hrest hfuel
    obtain ⟨fuel, rfl⟩ := Nat.exists_eq_add_of_lt hfuel
    rfl
  | bool b =>
    intro fuel level rest hrest hfuel
    cases b with
    | false =>
      obtain ⟨fuel, rfl⟩ := Nat.exists_eq_add_of_lt hfuel
      rfl
    | true =>
      obtain ⟨fuel, rfl⟩ := Nat.exists_eq_add_of_lt hfuel
      rfl
  | @int depth n hlimit =>
    exact readsBack_of_scalar (fun _ => by rw [write]) (toString_start n) fun _ => readScalar_int hlimit
  | @real depth text hreal =>
    exact readsBack_of_scalar (fun _ => by rw [write]) hreal.start fun _ => readScalar_real hreal
  | str s =>
    intro fuel level rest hrest hfuel
    obtain ⟨fuel, rfl⟩ := Nat.exists_eq_add_of_lt hfuel
    have hquoted : write lay level (.str s) ++ rest =
        '"' :: (s.toList.flatMap writeChar ++ '"' :: rest) := by
      simp [write, writeString]
    rw [hquoted, readValue]
    simp only [readString_write, bind, Except.bind, List.reverse_nil, List.nil_append,
      String.ofList_toList]
    rfl
  | @arr depth items h ih =>
    intro fuel level rest hrest hfuel
    cases items with
    | nil =>
      obtain ⟨fuel, rfl⟩ := Nat.exists_eq_add_of_lt hfuel
      rfl
    | cons w items =>
      have htext : write lay level (.arr (w :: items)) ++ rest =
          '[' :: (lay.breakAt (level + 1) ++ (write lay (level + 1) w ++
            (writeItems lay (level + 1) items ++ (lay.breakAt level ++ ']' :: rest)))) := by
        simp [write]
      have hlen : (write lay level (.arr (w :: items))).length =
          2 + (lay.breakAt (level + 1)).length +
          (write lay (level + 1) w).length + (writeItems lay (level + 1) items).length +
          (lay.breakAt level).length := by
        simp [write]
        omega
      obtain ⟨fuel, rfl⟩ := Nat.exists_eq_add_of_lt (show 0 < fuel by omega)
      rw [Nat.zero_add] at hfuel ⊢
      have hitems : readItems limit fuel depth [] (write lay (level + 1) w ++
          (writeItems lay (level + 1) items ++ (lay.breakAt level ++ ']' :: rest))) =
          .ok (.arr (w :: items), rest) :=
        readItems_write hlay (fun w hw => ⟨h w hw, ih w hw⟩) (hlay level).1 [] (by omega)
      obtain ⟨c, r, hstart, hspace, hclose, -⟩ :=
        (h w List.mem_cons_self).write_start lay (level + 1)
      rw [htext, ← hitems, hstart]
      exact readValue_items (hlay (level + 1)).1 hspace hclose
  | @obj depth fields hkeys h ih =>
    intro fuel level rest hrest hfuel
    rcases fields with _ | ⟨⟨k, w⟩, fields⟩
    · obtain ⟨fuel, rfl⟩ := Nat.exists_eq_add_of_lt hfuel
      rfl
    · have htext : write lay level (.obj ((k, w) :: fields)) ++ rest =
          '\x7b' :: (lay.breakAt (level + 1) ++
            (writeString k ++ (':' :: ' ' :: (write lay (level + 1) w ++
            (writeFields lay (level + 1) fields ++ (lay.breakAt level ++ '\x7d' :: rest)))))) := by
        simp [write]
      have hlen : (write lay level (.obj ((k, w) :: fields))).length = 4 +
          (lay.breakAt (level + 1)).length + (writeString k).length +
            (write lay (level + 1) w).length +
          (writeFields lay (level + 1) fields).length + (lay.breakAt level).length := by
        simp [write]
        omega
      obtain ⟨fuel, rfl⟩ := Nat.exists_eq_add_of_lt (show 0 < fuel by omega)
      rw [Nat.zero_add] at hfuel ⊢
      have hfields :
          readFields limit fuel depth [] (writeString k ++ (':' :: ' ' :: (write lay (level + 1) w ++
          (writeFields lay (level + 1) fields ++ (lay.breakAt level ++ '\x7d' :: rest))))) =
          .ok (.obj ((k, w) :: fields), rest) :=
        readFields_write hlay (fun f hf => ⟨h f hf, ih f hf⟩) hkeys (hlay level).1 (by omega)
      rw [htext, ← hfields]
      exact readValue_fields (hlay (level + 1)).1 (show isSpace '"' = false by decide) (by decide)

/-! ## The characters of a text -/

/-- Whether characters are printable ASCII or line feeds. -/
def IsAscii (cs : List Char) : Prop := ∀ c ∈ cs, c = '\n' ∨ (0x20 ≤ c.toNat ∧ c.toNat ≤ 0x7E)

@[simp] theorem isAscii_nil : IsAscii [] := fun _ hc => absurd hc List.not_mem_nil

@[simp] theorem isAscii_cons :
    IsAscii (c :: cs) ↔ (c = '\n' ∨ (0x20 ≤ c.toNat ∧ c.toNat ≤ 0x7E)) ∧ IsAscii cs :=
  List.forall_mem_cons

@[simp] theorem isAscii_append : IsAscii (cs ++ rest) ↔ IsAscii cs ∧ IsAscii rest :=
  List.forall_mem_append

theorem Blank.isAscii (h : Blank cs) : IsAscii cs := by
  intro c hc
  rcases h c hc with rfl | rfl
  · exact .inr (by decide)
  · exact .inl rfl

theorem forall_writeItems {P : Char → Prop} (hplain : ∀ c, 0x20 ≤ c.toNat ∧ c.toNat ≤ 0x7E → P c)
    (hgap : ∀ c ∈ lay.gapAt level, P c) {items : List Json}
    (h : ∀ w ∈ items, ∀ c ∈ write lay level w, P c) : ∀ c ∈ writeItems lay level items, P c := by
  induction items with
  | nil => exact nofun
  | cons w items ih =>
    rw [writeItems]
    simp only [List.cons_append, List.append_assoc, List.forall_mem_cons, List.forall_mem_append]
    exact ⟨hplain _ (by decide), hgap, h w List.mem_cons_self,
      ih fun u hu => h u (List.mem_cons_of_mem w hu)⟩

theorem forall_writeFields {P : Char → Prop} (hplain : ∀ c, 0x20 ≤ c.toNat ∧ c.toNat ≤ 0x7E → P c)
    (hgap : ∀ c ∈ lay.gapAt level, P c) {fields : List (String × Json)}
    (h : ∀ f ∈ fields, ∀ c ∈ write lay level f.2, P c) : ∀ c ∈ writeFields lay level fields, P c := by
  induction fields with
  | nil => exact nofun
  | cons f fields ih =>
    obtain ⟨k, w⟩ := f
    rw [writeFields]
    simp only [List.cons_append, List.append_assoc, List.forall_mem_cons, List.forall_mem_append]
    exact ⟨hplain _ (by decide), hgap, fun c hc => hplain c (writeString_ascii k c hc),
      hplain _ (by decide), hplain _ (by decide), h (k, w) List.mem_cons_self,
      ih fun u hu => h u (List.mem_cons_of_mem _ hu)⟩

/-- What is written is printable ASCII and what the layout puts between its parts. -/
theorem Readable.forall_write {P : Char → Prop} (hplain : ∀ c, 0x20 ≤ c.toNat ∧ c.toNat ≤ 0x7E → P c)
    (hlay : ∀ level, (∀ c ∈ lay.breakAt level, P c) ∧ ∀ c ∈ lay.gapAt level, P c)
    (h : Readable limit depth v) (level : Nat) : ∀ c ∈ write lay level v, P c := by
  induction h generalizing level with
  | null =>
    rw [write]
    simp [hplain]
  | bool b => cases b <;> simp [write, hplain]
  | @int depth n _ => exact fun c hc => hplain c (toString_ascii n c hc)
  | @real depth text hreal => exact fun c hc => hplain c (hreal.ascii c hc)
  | str s => exact fun c hc => hplain c (writeString_ascii s c hc)
  | @arr depth items h ih =>
    cases items with
    | nil => simp [write, hplain]
    | cons w items =>
      rw [write]
      simp only [List.cons_append, List.append_assoc, List.forall_mem_cons, List.forall_mem_append]
      exact ⟨hplain _ (by decide), (hlay (level + 1)).1, ih w List.mem_cons_self (level + 1),
        forall_writeItems hplain (hlay (level + 1)).2
          fun u hu => ih u (List.mem_cons_of_mem w hu) (level + 1),
        (hlay level).1, hplain _ (by decide), nofun⟩
  | @obj depth fields hkeys h ih =>
    rcases fields with _ | ⟨⟨k, w⟩, fields⟩
    · simp [write, hplain]
    · rw [write]
      simp only [List.cons_append, List.append_assoc, List.forall_mem_cons, List.forall_mem_append]
      exact ⟨hplain _ (by decide), (hlay (level + 1)).1, fun c hc => hplain c (writeString_ascii k c hc),
        hplain _ (by decide), hplain _ (by decide), ih (k, w) List.mem_cons_self (level + 1),
        forall_writeFields hplain (hlay (level + 1)).2
          fun f hf => ih f (List.mem_cons_of_mem _ hf) (level + 1),
        (hlay level).1, hplain _ (by decide), nofun⟩

/-- What is written is printable ASCII and line feeds. -/
theorem Readable.isAscii_write (h : Readable limit depth v) (hlay : lay.IsBlank) (level : Nat) :
    IsAscii (write lay level v) :=
  h.forall_write (fun _ => .inr) (fun level => ⟨(hlay level).1.isAscii, (hlay level).2.isAscii⟩) level

/-- What is written on one line is printable ASCII. -/
theorem Readable.printable_write (h : Readable limit depth v) (level : Nat) :
    ∀ c ∈ write .line level v, 0x20 ≤ c.toNat ∧ c.toNat ≤ 0x7E :=
  h.forall_write (fun _ => id)
    (fun _ => ⟨fun _ hc => absurd hc List.not_mem_nil, List.forall_mem_singleton.2 (by decide)⟩) level

/-- ASCII text has no line ends of other systems. -/
theorem unifyLineEnds_eq (h : IsAscii cs) : Text.unifyLineEnds cs = cs := by
  induction cs with
  | nil => rfl
  | cons c cs ih =>
    have hc : c ≠ '\r' := by
      rintro rfl
      rcases (isAscii_cons.1 h).1 with hno | hno
      · exact absurd hno (by decide)
      · exact absurd hno.1 (by decide)
    rw [Text.unifyLineEnds]
    · rw [if_neg hc, ih (isAscii_cons.1 h).2]
    · rintro rest rfl
      exact absurd rfl hc

/-! ## Texts -/

theorem sortFields_str (s : String) : sortFields (.str s) = .str s := by
  rw [sortFields]
  · exact nofun
  · exact nofun

/-- Texts in order have no fields to be sorted. -/
theorem sortFields_ofTexts (texts : List String) :
    sortFields (.ofTexts texts) = .ofTexts texts := by
  have heach : sortEach (texts.map str) = texts.map str := by
    induction texts with
    | nil => rfl
    | cons text texts ih => rw [List.map_cons, sortEach, sortFields_str, ih]
  rw [ofTexts, sortFields, heach]

theorem readable_ofTexts (texts : List String) : Readable limit (depth + 1) (.ofTexts texts) := by
  refine .arr fun v hv => ?_
  obtain ⟨text, -, rfl⟩ := List.mem_map.1 hv
  exact .str text

/-- The value of a text is read back from what is written for it. -/
theorem readBounded_write (hlay : lay.IsBlank) (h : Readable limit depth v) (hblank : Blank cs) :
    readBounded limit depth (String.ofList (write lay 0 v ++ cs)) = .ok v := by
  obtain ⟨c, r, hstart, hspace, -⟩ := h.write_start lay 0
  have hread := h.readsBack hlay (2 * (write lay 0 v ++ cs).length + 2) 0 cs hblank.delimited
    (by simp; omega)
  have hskip : skipSpace (write lay 0 v ++ cs) = write lay 0 v ++ cs := by
    rw [hstart, List.cons_append, skipSpace_cons hspace]
  have hrest : skipSpace cs = [] := by
    have hall := skipSpace_blank hblank []
    rwa [List.append_nil] at hall
  have hmark : (write lay 0 v ++ cs).head? ≠ some (Char.ofNat 0xFEFF) := by
    have hascii := h.isAscii_write hlay 0 c (by rw [hstart]; exact List.mem_cons_self)
    rw [hstart]
    rintro heq
    obtain rfl : c = Char.ofNat 0xFEFF := Option.some.inj heq
    revert hascii
    decide
  rw [readBounded]
  simp only [String.toList_ofList, if_neg hmark, hskip, hread, bind, Except.bind, hrest]
  rfl

theorem read_write (hlay : lay.IsBlank) (h : Readable limit depthLimit v) (hblank : Blank cs) :
    readWithin limit (String.ofList (write lay 0 v ++ cs)) = .ok v :=
  readBounded_write hlay h hblank

end Sysroot.Json

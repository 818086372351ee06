import Sysroot.Proofs.Library.Reading
import Sysroot.Proofs.Text.Blank
import Sysroot.Proofs.Text.Lines

/-!
# Lists of libraries and their normal form

A list of names can be put together from parts: what the whole is read as comes of what its parts are
read as (`Library.readAll_append`).  An entry that is blank, or that names what an entry before it names,
adds nothing to what comes before it, so it can be left out wherever it stands
(`Library.readAll_without`), and blanks around the entries do not show (`Library.readAll_of_strip_eq`).

The names of the libraries that were read, with commas between them, are the normal form of a list: they
are read as the same libraries again (`Library.readList_names`).
-/

namespace Sysroot.Library

open Effect

variable {t : String} {texts texts' before after : List String} {l : Library}
  {named ls ls' : List Library}

/-! ## Putting lists together -/

/-- The first occurrences in a list that is continued: those of the list, and those of the continuation
that are new. -/
theorem firstOccurrences_append (named named' : List Library) :
    firstOccurrences (named ++ named') = firstOccurrences named ++
      (firstOccurrences named').filter (· ∉ firstOccurrences named) := by
  induction named' using List.reverseRecOn with
  | nil => exact (congrArg _ (List.append_nil named)).trans (List.append_nil _).symm
  | append_singleton named' l ih =>
    rw [← List.append_assoc, firstOccurrences_concat, firstOccurrences_concat, ih]
    by_cases hold : l ∈ firstOccurrences named
    · have hthere : l ∈ firstOccurrences named ++
          (firstOccurrences named').filter (· ∉ firstOccurrences named) := List.mem_append_left _ hold
      rw [if_pos hthere]
      split
      · rfl
      · rw [List.filter_append, List.filter_singleton, decide_eq_false (not_not.2 hold)]
        exact congrArg _ (List.append_nil _).symm
    · have hthere : l ∈ firstOccurrences named ++
          (firstOccurrences named').filter (· ∉ firstOccurrences named) ↔ l ∈ firstOccurrences named' := by
        simp [hold]
      simp only [hthere]
      split
      · rfl
      · rw [List.filter_append, List.filter_singleton, decide_eq_true hold, List.append_assoc]
        rfl

/-- A list that is put together from two is read when both are, as what the first is read as, followed by
what is new in the second. -/
theorem readAll_append (texts texts' : List String) : readAll (texts ++ texts') = (do
    let ls ← readAll texts
    let ls' ← readAll texts'
    return ls ++ ls'.filter (· ∉ ls)) := by
  simp only [readAll, List.filter_append, List.mapM_append, bind_assoc, pure_bind,
    firstOccurrences_append]

theorem readAll_of_blank (h : Text.strip t = "") : readAll [t] = .ok [] := by
  rw [readAll, List.filter_cons_of_neg (by simp [h])]
  rfl

theorem readAll_singleton (h : Text.strip t ≠ "") : readAll [t] = (read t).map ([·]) := by
  rw [readAll, List.filter_cons_of_pos (by simp [h]), List.filter_nil, List.mapM_cons, List.mapM_nil]
  cases read t <;> rfl

/-- What an entry names is among the libraries of a list that it is in. -/
theorem mem_of_readAll (h : readAll texts = .ok ls) (ht : t ∈ texts) (hne : Text.strip t ≠ "") :
    ∃ l ∈ ls, Text.strip t = l.name := by
  obtain ⟨named, hnamed, h⟩ := except_bind_ok h
  cases h
  obtain ⟨l, hl, hread⟩ := except_mem_of_mapM hnamed
    (List.mem_filter.2 ⟨ht, decide_eq_true hne⟩)
  exact ⟨l, ((firstsOf_firstOccurrences named).mem_iff l).2 hl, read_eq_ok_iff.1 hread⟩

/-! ## Entries that do not matter -/

/-- An entry that is blank, or that names what an entry before it names, can be left out. -/
theorem readAll_without (h : Text.strip t = "" ∨ ∃ t' ∈ before, Text.strip t' = Text.strip t)
    (after : List String) : readAll (before ++ t :: after) = readAll (before ++ after) := by
  have hlast : readAll (before ++ [t]) = readAll before := by
    rw [readAll_append]
    cases hbefore : readAll before with
    | error cause => rfl
    | ok ls =>
      rw [except_ok_bind]
      by_cases hblank : Text.strip t = ""
      · rw [readAll_of_blank hblank, except_ok_bind]
        exact congrArg Except.ok (List.append_nil ls)
      · obtain ⟨t', ht', hsame⟩ := h.resolve_left hblank
        obtain ⟨l, hl, hname⟩ := mem_of_readAll hbefore ht' (hsame ▸ hblank)
        rw [readAll_singleton hblank, read_eq_ok_iff.2 (hsame.symm.trans hname), Except.map,
          except_ok_bind, List.filter_singleton, decide_eq_false (not_not.2 hl)]
        exact congrArg Except.ok (List.append_nil ls)
  rw [List.append_cons, readAll_append (before ++ [t]), hlast, ← readAll_append]

/-- Texts name libraries when they are their names without the blanks around them, blank texts aside. -/
theorem names_iff : Names texts named ↔
    (texts.map Text.strip).filter (· ≠ "") = named.map name := by
  rw [Names, ← List.forall₂_eq_eq_eq, List.forall₂_map_right_iff, List.filter_map,
    List.forall₂_map_left_iff]
  rfl

/-- Blanks around the entries do not show. -/
theorem readAll_of_strip_eq (h : texts.map Text.strip = texts'.map Text.strip) :
    readAll texts = .ok ls ↔ readAll texts' = .ok ls := by
  simp only [readAll_eq_ok_iff, names_iff, h]

theorem strip_of_padded (h : Text.Padded t t') : Text.strip t' = Text.strip t := by
  obtain ⟨htrimmed, before, after, hblank, ht⟩ := Text.strip_eq_iff.1 (rfl : Text.strip t = Text.strip t)
  obtain ⟨before', after', hblank', ht'⟩ := h
  refine Text.strip_eq_iff.2 ⟨htrimmed, before' ++ before, after ++ after', fun c hc => ?_, ?_⟩
  · simp only [List.mem_append] at hc hblank hblank'
    rcases hc with (hc | hc) | hc | hc
    · exact hblank' c (.inl hc)
    · exact hblank c (.inl hc)
    · exact hblank c (.inr hc)
    · exact hblank' c (.inr hc)
  · rw [ht', ht]
    simp

/-! ## Which lists are refused -/

/-- Whether every entry of a list is blank or names a library. -/
def AllKnown (texts : List String) : Prop :=
  ∀ t ∈ texts, Text.strip t ≠ "" → ∃ l : Library, Text.strip t = l.name

theorem exists_readAll_iff : (∃ ls, readAll texts = .ok ls) ↔ AllKnown texts := by
  rw [AllKnown, ← exists_names_iff]
  simp only [readAll_eq_ok_iff]
  constructor
  · rintro ⟨ls, named, hnames, -⟩
    exact ⟨named, hnames⟩
  · rintro ⟨named, hnames⟩
    exact ⟨_, named, hnames, firstsOf_firstOccurrences named⟩

/-- Whether an entry of a list is neither blank nor the name of a library. -/
def Unknown (t : String) : Prop :=
  Text.strip t ≠ "" ∧ ∀ l : Library, Text.strip t ≠ l.name

theorem allKnown_append : AllKnown (texts ++ texts') ↔ AllKnown texts ∧ AllKnown texts' :=
  List.forall_mem_append

/-- A list has a first entry that is not known unless all of them are. -/
theorem allKnown_or_first_unknown (texts : List String) : AllKnown texts ∨
    ∃ before t after, texts = before ++ t :: after ∧ AllKnown before ∧ Unknown t := by
  induction texts with
  | nil => exact .inl nofun
  | cons t texts ih =>
    by_cases ht : Unknown t
    · exact .inr ⟨[], t, texts, rfl, nofun, ht⟩
    · have hknown : AllKnown [t] := by
        intro t' ht' hne
        obtain rfl := List.mem_singleton.1 ht'
        by_contra hnone
        exact ht ⟨hne, not_exists.1 hnone⟩
      obtain hall | ⟨before, t', after, rfl, hbefore, ht'⟩ := ih
      · exact .inl (allKnown_append.2 ⟨hknown, hall⟩)
      · exact .inr ⟨t :: before, t', after, rfl, allKnown_append.2 ⟨hknown, hbefore⟩, ht'⟩

theorem read_of_unknown (h : Unknown t) : read t = .error (.unknownLibrary t) := by
  rw [read]
  split
  · next l hl => exact absurd (ofName?_eq_some_iff.1 hl) (h.2 l)
  · rfl

theorem readAll_of_first_unknown (hbefore : AllKnown before) (ht : Unknown t) (after : List String) :
    readAll (before ++ t :: after) = .error (.unknownLibrary t) := by
  obtain ⟨ls, hls⟩ := exists_readAll_iff.2 hbefore
  rw [readAll_append, hls, except_ok_bind, ← List.singleton_append, readAll_append,
    readAll_singleton ht.1, read_of_unknown ht]
  rfl

/-- A list is refused on account of its first entry that is not blank and names no library. -/
theorem readAll_eq_error_iff {cause : Cause} : readAll texts = .error cause ↔
    ∃ before t after, texts = before ++ t :: after ∧ AllKnown before ∧ Unknown t ∧
      cause = .unknownLibrary t := by
  constructor
  · intro h
    obtain hall | ⟨before, t, after, rfl, hbefore, ht⟩ := allKnown_or_first_unknown texts
    · obtain ⟨ls, hls⟩ := exists_readAll_iff.2 hall
      cases hls.symm.trans h
    · exact ⟨before, t, after, rfl, hbefore, ht,
        Except.error.inj (h.symm.trans (readAll_of_first_unknown hbefore ht after))⟩
  · rintro ⟨before, t, after, rfl, hbefore, ht, rfl⟩
    exact readAll_of_first_unknown hbefore ht after

/-! ## Lists that are written with commas -/

/-- Whether a text is written as entries with commas between them, which are in none of the entries. -/
structure WrittenAs (text : String) (entries : List String) : Prop where
  ne_nil : entries ≠ []
  no_comma : ∀ entry ∈ entries, ',' ∉ entry.toList
  join_eq : Text.join "," entries = text

theorem writtenAs_iff {text : String} : WrittenAs text texts ↔ Text.split ',' text = texts := by
  have hmark : ",".toList = [','] := rfl
  rw [Text.split_eq_iff hmark]
  exact ⟨fun h => ⟨h.ne_nil, h.no_comma, h.join_eq⟩,
    fun ⟨hne, hcomma, hjoin⟩ => ⟨hne, hcomma, hjoin⟩⟩

/-- A text is written in one way, and is read as its entries are. -/
theorem readList_writtenAs (text : String) :
    (∃! entries, WrittenAs text entries) ∧
      ∀ entries, WrittenAs text entries → readList text = readAll entries := by
  refine ⟨⟨Text.split ',' text, writtenAs_iff.2 rfl, fun entries h => (writtenAs_iff.1 h).symm⟩, ?_⟩
  intro entries h
  rw [readList, writtenAs_iff.1 h]

/-- A list that is written with commas is read when its parts are. -/
theorem readList_append (text text' : String) : readList (text ++ "," ++ text') = (do
    let ls ← readList text
    let ls' ← readList text'
    return ls ++ ls'.filter (· ∉ ls)) := by
  have hsplit : Text.split ',' (text ++ "," ++ text') = Text.split ',' text ++ Text.split ',' text' :=
    Text.split_append rfl text text'
  rw [readList, hsplit, readAll_append, readList, readList]

/-! ## The normal form -/

theorem comma_not_mem_name (l : Library) : ',' ∉ l.name.toList := by
  cases l <;> decide

theorem readAll_nodup (h : readAll texts = .ok ls) : ls.Nodup := by
  obtain ⟨named, -, hfirsts⟩ := readAll_eq_ok_iff.1 h
  exact hfirsts.nodup

/-- The names of libraries with commas between them are read as the libraries. -/
theorem readList_names (h : ls.Nodup) : readList (Text.join "," (ls.map name)) = .ok ls := by
  cases ls with
  | nil => rfl
  | cons l ls =>
    have hmark : ",".toList = [','] := rfl
    have hne : (l :: ls).map name ≠ [] := List.cons_ne_nil _ _
    have hcomma : ∀ part ∈ (l :: ls).map name, ',' ∉ part.toList := by
      intro part hpart
      obtain ⟨d, -, rfl⟩ := List.mem_map.1 hpart
      exact comma_not_mem_name d
    rw [readList, Text.split_join hmark hne hcomma]
    exact readAll_map_name h

/-- A list of names is read when every entry that is not blank names a library without the blanks around
it, and as the first occurrences of what is named; blank entries, blanks around entries and entries that
were there before do not show.  What is read has a normal form, its names with commas between them, that
is read as the same again.  A list that is continued is read as its start is, and what is new in the
continuation behind it.  For a text the list is that of its parts between commas. -/
theorem lists_have_normal_form (texts : List String) (text : String) :
    ((∃ ls, readAll texts = .ok ls) ↔ AllKnown texts) ∧
    (∀ ls, readAll texts = .ok ls ↔ ∃ named, Names texts named ∧ FirstsOf named ls) ∧
    (∀ cause, readAll texts = .error cause ↔ ∃ before t after, texts = before ++ t :: after ∧
      AllKnown before ∧ Unknown t ∧ cause = .unknownLibrary t) ∧
    (∀ before t after, texts = before ++ t :: after →
      (Text.strip t = "" ∨ ∃ t' ∈ before, Text.strip t' = Text.strip t) →
      readAll texts = readAll (before ++ after)) ∧
    (∀ texts' ls, List.Forall₂ Text.Padded texts texts' →
      (readAll texts' = .ok ls ↔ readAll texts = .ok ls)) ∧
    (∀ ls, readAll texts = .ok ls →
      readAll (ls.map name) = .ok ls ∧ readList (Text.join "," (ls.map name)) = .ok ls) ∧
    (∀ texts', readAll (texts ++ texts') = do
      let ls ← readAll texts
      let ls' ← readAll texts'
      return ls ++ ls'.filter (· ∉ ls)) ∧
    (∃! entries, WrittenAs text entries) ∧
    (∀ entries, WrittenAs text entries → readList text = readAll entries) ∧
    (∀ text', readList (text ++ "," ++ text') = do
      let ls ← readList text
      let ls' ← readList text'
      return ls ++ ls'.filter (· ∉ ls)) := by
  obtain ⟨hentries, hread⟩ := readList_writtenAs text
  refine ⟨exists_readAll_iff, fun ls => readAll_eq_ok_iff, fun cause => readAll_eq_error_iff, ?_, ?_, ?_,
    readAll_append texts, hentries, hread, readList_append text⟩
  · rintro before t after rfl h
    exact readAll_without h after
  · intro texts' ls h
    refine readAll_of_strip_eq (List.forall₂_eq_eq_eq ▸ ?_)
    rw [List.forall₂_map_left_iff, List.forall₂_map_right_iff]
    exact h.flip.imp fun t' t hpadded => strip_of_padded hpadded
  · intro ls h
    exact ⟨readAll_map_name (readAll_nodup h), readList_names (readAll_nodup h)⟩

theorem lists_have_normal_form_libc_libcxx :
    AllKnown [" libc", "", "libcxx\n", "libc"] ∧
    readAll [" libc", "", "libcxx\n", "libc"] = .ok [libc, libcxx] ∧
    readAll [" libc", "", "libcxx\n", "libc"] = readAll [" libc", "libcxx\n", "libc"] ∧
    readAll [" libc ", "", "libcxx\n", "\tlibc"] = .ok [libc, libcxx] ∧
    readList " libc,,libcxx\n,libc" = .ok [libc, libcxx] ∧
    readList "libc,libcxx" = .ok [libc, libcxx] := by
  obtain ⟨hknown, -, -, hwithout, hpadded, hnormal, -, -, hwritten, -⟩ :=
    lists_have_normal_form [" libc", "", "libcxx\n", "libc"] " libc,,libcxx\n,libc"
  have hread : readAll [" libc", "", "libcxx\n", "libc"] = .ok [libc, libcxx] := by rfl
  have haround : List.Forall₂ Text.Padded [" libc", "", "libcxx\n", "libc"]
      [" libc ", "", "libcxx\n", "\tlibc"] :=
    .cons ⟨[], [' '], by simp [Text.isBlank], by decide⟩ (.cons ⟨[], [], nofun, by simp⟩
      (.cons ⟨[], [], nofun, by simp⟩ (.cons ⟨['\t'], [], by simp [Text.isBlank], by decide⟩ .nil)))
  refine ⟨hknown.1 ⟨_, hread⟩, hread, hwithout [" libc"] "" _ rfl (.inl rfl),
    (hpadded _ _ haround).2 hread, ?_, (hnormal _ hread).2⟩
  rw [hwritten [" libc", "", "libcxx\n", "libc"] ⟨List.cons_ne_nil _ _, by decide, by decide⟩, hread]

end Sysroot.Library

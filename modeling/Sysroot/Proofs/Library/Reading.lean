import Sysroot.Library.Reading
import Sysroot.Proofs.Effect

/-!
# What names of libraries are read as

A text is read as the library whose name it is once the blanks around it are dropped
(`Library.read_eq_ok_iff`).  A list of texts is read when all of them are that are not blank, and gives
the libraries that they name, each at the place of its first occurrence (`Library.readAll_eq_ok_iff`).
-/

namespace Sysroot.Library

open Effect

variable {text : String} {texts : List String} {l : Library} {named ls ls' : List Library}

theorem name_injective : Function.Injective name := fun l d h =>
  Option.some.inj ((ofName?_name l).symm.trans ((congrArg ofName? h).trans (ofName?_name d)))

theorem ofName?_eq_some_iff {s : String} : ofName? s = some l ↔ s = l.name := by
  refine ⟨fun h => ?_, fun h => h ▸ ofName?_name l⟩
  have hname := List.find?_some h
  exact (of_decide_eq_true hname).symm

/-- A text is read as the library that it names without the blanks around it. -/
theorem read_eq_ok_iff : read text = .ok l ↔ Text.strip text = l.name := by
  rw [← ofName?_eq_some_iff, read]
  cases ofName? (Text.strip text) with
  | none => exact ⟨nofun, nofun⟩
  | some d => exact ⟨fun h => congrArg some (Except.ok.inj h), fun h => congrArg _ (Option.some.inj h)⟩

theorem strip_name (l : Library) : Text.strip l.name = l.name := by
  cases l <;> rfl

theorem read_name (l : Library) : read l.name = .ok l := read_eq_ok_iff.2 (strip_name l)

theorem name_ne_empty (l : Library) : l.name ≠ "" := by
  cases l <;> decide

/-! ## First occurrences -/

/-- Whether a list has the members of another one, each once, in the order in which they first occur
there. -/
structure FirstsOf (named ls : List Library) : Prop where
  nodup : ls.Nodup
  mem_iff : ∀ l, l ∈ ls ↔ l ∈ named
  order : ls.Pairwise fun l d => named.idxOf l < named.idxOf d

theorem firstOccurrences_concat (named : List Library) (l : Library) :
    firstOccurrences (named ++ [l]) =
      if l ∈ firstOccurrences named then firstOccurrences named else firstOccurrences named ++ [l] := by
  rw [firstOccurrences, List.foldl_append, ← firstOccurrences]
  simp only [List.foldl_cons, List.foldl_nil, List.contains_iff_mem]

theorem firstsOf_firstOccurrences (named : List Library) : FirstsOf named (firstOccurrences named) := by
  induction named using List.reverseRecOn with
  | nil => exact ⟨List.nodup_nil, fun l => Iff.rfl, List.Pairwise.nil⟩
  | append_singleton named l ih =>
    rw [firstOccurrences_concat]
    have horder : (firstOccurrences named).Pairwise fun a b =>
        (named ++ [l]).idxOf a < (named ++ [l]).idxOf b := by
      refine ih.order.imp_of_mem fun {a b} ha hb hlt => ?_
      rwa [List.idxOf_append_of_mem ((ih.mem_iff a).1 ha), List.idxOf_append_of_mem ((ih.mem_iff b).1 hb)]
    split
    · next hl =>
      refine ⟨ih.nodup, fun d => ?_, horder⟩
      rw [List.mem_append, List.mem_singleton, ih.mem_iff]
      exact ⟨.inl, fun h => h.elim id fun heq => heq ▸ (ih.mem_iff l).1 hl⟩
    · next hl =>
      refine ⟨List.nodup_append.2 ⟨ih.nodup, List.nodup_singleton l, fun a ha b hb heq => hl ?_⟩,
        fun d => ?_, List.pairwise_append.2 ⟨horder, List.pairwise_singleton _ l, fun a ha b hb => ?_⟩⟩
      · rwa [← List.mem_singleton.1 hb, ← heq]
      · rw [List.mem_append, List.mem_append, ih.mem_iff]
      · have hnew : l ∉ named := mt (ih.mem_iff l).2 hl
        obtain rfl := List.mem_singleton.1 hb
        have ha' := (ih.mem_iff a).1 ha
        rw [List.idxOf_append_of_mem ha', List.idxOf_append_of_notMem hnew]
        exact Nat.lt_of_lt_of_le (List.idxOf_lt_length_of_mem ha') (Nat.le_add_right _ _)

theorem FirstsOf.eq_nil_iff (h : FirstsOf named ls) : ls = [] ↔ named = [] := by
  simp only [List.eq_nil_iff_forall_not_mem, h.mem_iff]

/-- There is one list of the first occurrences in a list. -/
theorem FirstsOf.unique (h : FirstsOf named ls) (h' : FirstsOf named ls') : ls = ls' := by
  have hperm : ls.Perm ls' := (List.perm_ext_iff_of_nodup h.nodup h'.nodup).2 fun l =>
    (h.mem_iff l).trans (h'.mem_iff l).symm
  exact hperm.eq_of_pairwise (fun a b _ _ hlt hgt => absurd hlt (Nat.lt_asymm hgt)) h.order h'.order

/-! ## Lists of names -/

/-- Whether texts name libraries: each of them that is not blank names one. -/
def Names (texts : List String) (named : List Library) : Prop :=
  List.Forall₂ (fun text l => Text.strip text = name l) (texts.filter fun t => Text.strip t ≠ "") named

theorem exists_names_iff : (∃ named, Names texts named) ↔
    ∀ t ∈ texts, Text.strip t ≠ "" → ∃ l : Library, Text.strip t = l.name := by
  induction texts with
  | nil => exact ⟨fun _ => nofun, fun _ => ⟨[], .nil⟩⟩
  | cons t texts ih =>
    rw [List.forall_mem_cons, ← ih]
    by_cases ht : Text.strip t = ""
    · have hskip : (t :: texts).filter (fun t => Text.strip t ≠ "") =
          texts.filter fun t => Text.strip t ≠ "" := List.filter_cons_of_neg (by simp [ht])
      simp only [Names, hskip]
      exact (and_iff_right fun hne => absurd ht hne).symm
    · have htake : (t :: texts).filter (fun t => Text.strip t ≠ "") =
          t :: texts.filter fun t => Text.strip t ≠ "" := List.filter_cons_of_pos (by simp [ht])
      simp only [Names, htake]
      constructor
      · rintro ⟨_, hnames⟩
        obtain _ | ⟨hl, hnames⟩ := hnames
        exact ⟨fun _ => ⟨_, hl⟩, _, hnames⟩
      · rintro ⟨hl, named, hnames⟩
        obtain ⟨l, hl⟩ := hl ht
        exact ⟨l :: named, .cons hl hnames⟩

/-- Texts are read as the first occurrences of the libraries that they name. -/
theorem readAll_eq_ok_iff : readAll texts = .ok ls ↔ ∃ named, Names texts named ∧ FirstsOf named ls := by
  have hnames : ∀ {named}, (texts.filter fun t => Text.strip t ≠ "").mapM read = .ok named ↔
      Names texts named := fun {named} =>
    except_mapM_eq_ok_iff.trans (by simp only [read_eq_ok_iff]; rfl)
  constructor
  · intro h
    obtain ⟨named, hnamed, h⟩ := except_bind_ok h
    cases h
    exact ⟨named, hnames.1 hnamed, firstsOf_firstOccurrences named⟩
  · rintro ⟨named, hnamed, hfirsts⟩
    rw [readAll, hnames.2 hnamed, except_ok_bind]
    exact congrArg _ ((firstsOf_firstOccurrences named).unique hfirsts)

/-- The names of libraries, each once, are read as those libraries. -/
theorem readAll_map_name (h : ls.Nodup) : readAll (ls.map name) = .ok ls := by
  refine readAll_eq_ok_iff.2 ⟨ls, ?_, h, fun l => Iff.rfl, List.pairwise_iff_getElem.2 ?_⟩
  · have hall : (ls.map name).filter (fun t => Text.strip t ≠ "") = ls.map name := by
      refine List.filter_eq_self.2 fun t ht => ?_
      obtain ⟨l, -, rfl⟩ := List.mem_map.1 ht
      rw [strip_name]
      exact decide_eq_true (name_ne_empty l)
    rw [Names, hall, List.forall₂_map_left_iff, List.forall₂_same]
    exact fun l _ => strip_name l
  · intro i j hi hj hij
    rwa [h.idxOf_getElem i hi, h.idxOf_getElem j hj]

/-- Texts that name no library are refused with a cause that a report shows as an error in the
settings. -/
theorem failsBy_readAll (texts : List String) :
    FailsBy (fun cause => cause.diagnostic.category = .configuration) (readAll texts) := by
  refine (FailsBy.mapM fun text _ => ?_).bind fun libraries => failsBy_ok _
  rw [read]
  split
  · exact failsBy_ok _
  · exact failsBy_error rfl

end Sysroot.Library

import Mathlib
import Sysroot.Configure.Arguments
import Sysroot.Proofs.KeyOrder
import Sysroot.Proofs.Text.Lines

/-!
# What a run of operations leaves of a name

An operation on arguments assigns an entry to a name, or appends a text to the entries of some names.
The entry that a name has after some operations is what its own history of changes makes of it
(`Arguments.find?_after`), and that is the last assignment with the texts behind it that were appended
later, empty ones aside (`foldl_changes`).
-/

namespace Sysroot.Configure

/-- An operation on the arguments of a configure run. -/
inductive Operation where
  | set (name : String) (e : Entry)
  | append (name text : String)
  | compilerFlag (flag : String)
  | sharedLinkerFlag (flag : String)
  | programLinkerFlag (flag : String)
  | generator (name : String)
deriving DecidableEq

/-- What is done to the entry of a name. -/
inductive Change where
  | assigned (e : Entry)
  | appended (text : String)

namespace Operation

/-- The arguments after an operation. -/
def apply (a : Arguments) : Operation → Arguments
  | .set name e => a.set name e
  | .append name text => a.append name text
  | .compilerFlag flag => a.compilerFlag flag
  | .sharedLinkerFlag flag => a.sharedLinkerFlag flag
  | .programLinkerFlag flag => a.programLinkerFlag flag
  | .generator name => a.generator name

/-- What an operation does, name by name. -/
def changes : Operation → List (String × Change)
  | .set name e => [(name, .assigned e)]
  | .append name text => [(name, .appended text)]
  | .compilerFlag flag => [("CMAKE_C_FLAGS", .appended flag), ("CMAKE_CXX_FLAGS", .appended flag)]
  | .sharedLinkerFlag flag => [("CMAKE_SHARED_LINKER_FLAGS", .appended flag)]
  | .programLinkerFlag flag => [("CMAKE_EXE_LINKER_FLAGS", .appended flag)]
  | .generator _ => []

/-- The names that an operation touches. -/
def names (op : Operation) : List String := op.changes.map Prod.fst

/-- What an operation does to one name. -/
def changesOf (name : String) (op : Operation) : List Change :=
  op.changes.filterMap fun p => if p.1 = name then some p.2 else none

/-- The arguments that an operation puts before the entries. -/
def leading : Operation → List String
  | .generator name => ["-G", name]
  | _ => []

end Operation

/-- What is done to a name by some operations. -/
def history (name : String) (ops : List Operation) : List Change := ops.flatMap (Operation.changesOf name)

/-- The entry of a name after a change. -/
def Change.apply (old : Option Entry) : Change → Option Entry
  | .assigned e => some e
  | .appended text => if text = "" then old else some (Arguments.extended old text)

/-- The arguments after some operations on none. -/
def Arguments.after (ops : List Operation) : Arguments := ops.foldl Operation.apply {}

variable {a : Arguments} {name text : String} {old : Option Entry} {texts : List String}
  {ops : List Operation}

/-! ## One operation -/

theorem Arguments.find?_append (a : Arguments) (name text name' : String) :
    (a.append name text).entries.find? name' =
      if name = name' then (Change.appended text).apply (a.entries.find? name')
      else a.entries.find? name' := by
  by_cases hname : name = name'
  · subst hname
    rw [if_pos rfl, append, Change.apply]
    split
    · rfl
    · rw [set, OrderedMap.find?_insert, if_pos rfl]
  · rw [if_neg hname, append]
    split
    · rfl
    · rw [set, OrderedMap.find?_insert, if_neg (Ne.symm hname)]

/-- An operation does to each name what its changes say. -/
theorem Operation.find?_apply (a : Arguments) (op : Operation) (name : String) :
    (op.apply a).entries.find? name = (op.changesOf name).foldl Change.apply (a.entries.find? name) := by
  cases op with
  | set name' e =>
    rw [apply, Arguments.set, OrderedMap.find?_insert]
    by_cases hname : name' = name
    · simp [changesOf, changes, Change.apply, hname]
    · simp [changesOf, changes, hname, Ne.symm hname]
  | append name' text =>
    rw [apply, Arguments.find?_append]
    by_cases hname : name' = name <;> simp [changesOf, changes, hname]
  | compilerFlag flag =>
    rw [apply, Arguments.compilerFlag, Arguments.find?_append, Arguments.find?_append]
    by_cases hcxx : "CMAKE_CXX_FLAGS" = name
    · subst hcxx
      rfl
    · by_cases hc : "CMAKE_C_FLAGS" = name <;> simp [changesOf, changes, hcxx, hc]
  | sharedLinkerFlag flag =>
    rw [apply, Arguments.sharedLinkerFlag, Arguments.find?_append]
    by_cases hname : "CMAKE_SHARED_LINKER_FLAGS" = name <;> simp [changesOf, changes, hname]
  | programLinkerFlag flag =>
    rw [apply, Arguments.programLinkerFlag, Arguments.find?_append]
    by_cases hname : "CMAKE_EXE_LINKER_FLAGS" = name <;> simp [changesOf, changes, hname]
  | generator generator => rfl

theorem Operation.leading_apply (a : Arguments) (op : Operation) :
    (op.apply a).leading = a.leading ++ op.leading := by
  have happend : ∀ (a : Arguments) name text, (a.append name text).leading = a.leading := by
    intro a name text
    rw [Arguments.append]
    split <;> rfl
  cases op with
  | generator name => rfl
  | set name e => exact (List.append_nil _).symm
  | compilerFlag flag =>
    rw [apply, Arguments.compilerFlag, happend, happend]
    exact (List.append_nil _).symm
  | append name text | sharedLinkerFlag text | programLinkerFlag text =>
    exact (happend _ _ _).trans (List.append_nil _).symm

/-- An operation does nothing to the names that it does not touch. -/
theorem Operation.changesOf_eq_nil_iff {op : Operation} : op.changesOf name = [] ↔ name ∉ op.names := by
  rw [changesOf, List.filterMap_eq_nil_iff, names, List.mem_map]
  constructor
  · rintro h ⟨⟨_, change⟩, hmem, rfl⟩
    exact absurd (h _ hmem) (by simp)
  · intro h p hp
    exact if_neg fun hname => h ⟨p, hp, hname⟩

/-! ## Runs of operations -/

theorem history_cons (name : String) (op : Operation) (ops : List Operation) :
    history name (op :: ops) = op.changesOf name ++ history name ops := List.flatMap_cons

/-- What some operations make of a name is what its history makes of it. -/
theorem Arguments.find?_foldl (a : Arguments) (ops : List Operation) (name : String) :
    (ops.foldl Operation.apply a).entries.find? name =
      (history name ops).foldl Change.apply (a.entries.find? name) := by
  induction ops generalizing a with
  | nil => rfl
  | cons op ops ih =>
    rw [List.foldl_cons, ih, Operation.find?_apply, history_cons, List.foldl_append]

theorem Arguments.find?_after (ops : List Operation) (name : String) :
    (after ops).entries.find? name = (history name ops).foldl Change.apply none :=
  find?_foldl {} ops name

theorem Arguments.leading_after (ops : List Operation) :
    (after ops).leading = ops.flatMap Operation.leading := by
  have hfrom : ∀ a : Arguments,
      (ops.foldl Operation.apply a).leading = a.leading ++ ops.flatMap Operation.leading := by
    induction ops with
    | nil => exact fun a => (List.append_nil _).symm
    | cons op ops ih =>
      intro a
      rw [List.foldl_cons, ih, Operation.leading_apply, List.append_assoc, List.flatMap_cons]
  exact hfrom {}

/-- The history of a name is that in the operations that touch it. -/
theorem history_filter (name : String) (ops : List Operation) :
    history name (ops.filter (name ∈ ·.names)) = history name ops := by
  induction ops with
  | nil => rfl
  | cons op ops ih =>
    by_cases htouch : name ∈ op.names
    · rw [List.filter_cons, if_pos (decide_eq_true htouch), history_cons, history_cons, ih]
    · rw [List.filter_cons, if_neg (by simpa using htouch), history_cons, ih,
        Operation.changesOf_eq_nil_iff.2 htouch, List.nil_append]

/-! ## What a history makes of a name -/

/-- The text that appended texts continue: that of a string entry which is not empty. -/
def continued : Option Entry → List String
  | some ⟨.string, before⟩ => if before = "" then [] else [before]
  | _ => []

/-- An entry with texts appended: those that are not empty stand behind the text that they continue, with
single blanks between them; when all of them are empty the entry stays. -/
def settled (old : Option Entry) (texts : List String) : Option Entry :=
  if texts.filter (· ≠ "") = [] then old
  else some ⟨.string, Text.join " " (continued old ++ texts.filter (· ≠ ""))⟩

theorem extended_eq (old : Option Entry) (text : String) :
    Arguments.extended old text = ⟨.string, Text.join " " (continued old ++ [text])⟩ := by
  have hnew : (⟨.string, text⟩ : Entry) = ⟨.string, Text.join " " ([] ++ [text])⟩ := by
    rw [List.nil_append, Text.join_singleton]
  rcases old with _ | ⟨type, before⟩
  · exact hnew
  cases type with
  | string =>
    rw [Arguments.extended, continued]
    by_cases hempty : before = ""
    · rw [if_pos hempty, if_pos hempty]
      exact hnew
    · rw [if_neg hempty, if_neg hempty, Text.join_concat (List.cons_ne_nil _ _), Text.join_singleton]
  | _ => exact hnew

/-- Texts that are not empty are continued whole. -/
theorem continued_join {parts : List String} (hne : parts ≠ []) (h : ∀ part ∈ parts, part ≠ "") :
    continued (some ⟨.string, Text.join " " parts⟩) = [Text.join " " parts] := by
  cases parts with
  | nil => exact absurd rfl hne
  | cons first parts => exact if_neg (Text.join_ne_empty (h first List.mem_cons_self) " " parts)

theorem ne_empty_of_mem_continued {before : String} (h : before ∈ continued old) : before ≠ "" := by
  rw [continued.eq_def] at h
  split at h
  · split at h
    · cases h
    · next hne => rwa [List.mem_singleton.1 h]
  · cases h

/-- A text that is appended to a settled entry is one more of its texts. -/
theorem apply_settled (old : Option Entry) (texts : List String) (text : String) :
    (Change.appended text).apply (settled old texts) = settled old (texts ++ [text]) := by
  have hkept : ∀ part ∈ texts.filter (· ≠ ""), part ≠ "" := fun part hpart =>
    of_decide_eq_true (List.mem_filter.1 hpart).2
  rw [Change.apply, settled, settled, List.filter_append]
  generalize texts.filter (· ≠ "") = kept at hkept ⊢
  by_cases htext : text = ""
  · rw [if_pos htext, htext]
    exact congrArg (fun l => if l = [] then old else some ⟨.string, Text.join " " (continued old ++ l)⟩)
      (List.append_nil kept).symm
  · have hnew : [text].filter (· ≠ "") = [text] := by simp [htext]
    rw [if_neg htext, hnew, if_neg (List.append_ne_nil_of_right_ne_nil _ (List.cons_ne_nil _ _)), extended_eq]
    by_cases hnone : kept = []
    · rw [if_pos hnone, hnone, List.nil_append]
    · have hne : continued old ++ kept ≠ [] := List.append_ne_nil_of_right_ne_nil _ hnone
      have hparts : ∀ part ∈ continued old ++ kept, part ≠ "" := by
        intro part hpart
        rcases List.mem_append.1 hpart with hpart | hpart
        · exact ne_empty_of_mem_continued hpart
        · exact hkept part hpart
      rw [if_neg hnone, continued_join hne hparts, ← List.append_assoc, Text.join_concat hne,
        Text.join_concat (List.cons_ne_nil _ _), Text.join_singleton]

/-- Appending texts one after the other settles the entry. -/
theorem foldl_appended (old : Option Entry) (texts : List String) :
    (texts.map Change.appended).foldl Change.apply old = settled old texts := by
  induction texts using List.reverseRecOn with
  | nil => rfl
  | append_singleton texts text ih =>
    rw [List.map_append, List.foldl_append, ih]
    exact apply_settled old texts text

/-- Whether changes end with an assignment, if there is one, and the texts that were appended later. -/
inductive EndsWith : List Change → Option Entry → List String → Prop
  | unassigned (texts : List String) : EndsWith (texts.map .appended) none texts
  | assigned (before : List Change) (e : Entry) (texts : List String) :
      EndsWith (before ++ .assigned e :: texts.map .appended) (some e) texts

theorem exists_endsWith (changes : List Change) : ∃ last texts, EndsWith changes last texts := by
  induction changes using List.reverseRecOn with
  | nil => exact ⟨none, [], .unassigned []⟩
  | append_singleton changes change ih =>
    cases change with
    | assigned e => exact ⟨some e, [], .assigned changes e []⟩
    | appended text =>
      obtain ⟨_, texts, hends⟩ := ih
      cases hends with
      | unassigned =>
        refine ⟨none, texts ++ [text], ?_⟩
        have h := EndsWith.unassigned (texts ++ [text])
        rwa [List.map_append] at h
      | assigned before e =>
        refine ⟨some e, texts ++ [text], ?_⟩
        have h := EndsWith.assigned before e (texts ++ [text])
        rwa [List.map_append, ← List.cons_append, ← List.append_assoc] at h

/-- Changes leave the last assignment with the texts that were appended later. -/
theorem EndsWith.foldl_eq {changes : List Change} (h : EndsWith changes old texts) :
    changes.foldl Change.apply none = settled old texts := by
  cases h with
  | unassigned => exact foldl_appended none texts
  | assigned before e =>
    rw [List.foldl_append, List.foldl_cons]
    exact foldl_appended (some e) texts

end Sysroot.Configure

import Sysroot.Proofs.Configure.Operations

/-!
# The definitions on a command line

The arguments of a configure run end with one definition for each name that has an entry, in the order of
the names.  A definition is read in one way as long as there is no colon in the name
(`Entry.render_inj`), so the definitions tell every entry (`Arguments.find?_of_definitions`).

After a run of operations the definitions are canonical (`Arguments.after_canonical`): they depend on what
was done to each name and in which order, and not on how the operations on different names were mixed.
-/

namespace Sysroot.Configure

variable {a a' : Arguments} {e e' : Entry} {name name' : String} {ops ops' : List Operation}

/-! ## One definition -/

theorem Entry.toList_render (e : Entry) (name : String) : (e.render name).toList =
    '-' :: 'D' :: (name.toList ++ ':' :: (e.type.name.toList ++ '=' :: e.value.toList)) := by
  simp [render, String.toList_append]

theorem EntryType.equals_not_mem_name (t : EntryType) : '=' ∉ t.name.toList := by
  cases t <;> decide

theorem EntryType.name_injective : Function.Injective EntryType.name := by
  intro t t' h
  cases t <;> cases t' <;> first | rfl | exact absurd h (by decide)

/-- A definition tells its name and its entry when there is no colon in the name. -/
theorem Entry.render_inj (hname : ':' ∉ name.toList) (hname' : ':' ∉ name'.toList)
    (h : e.render name = e'.render name') : name = name' ∧ e = e' := by
  rw [← String.toList_inj, toList_render, toList_render, List.cons.injEq, List.cons.injEq] at h
  obtain ⟨hnames, hentries⟩ := Text.append_cons_inj hname hname' h.2.2
  obtain ⟨htypes, hvalues⟩ := Text.append_cons_inj e.type.equals_not_mem_name
    e'.type.equals_not_mem_name hentries
  have htype : e.type = e'.type := EntryType.name_injective (String.toList_inj.1 htypes)
  have hvalue : e.value = e'.value := String.toList_inj.1 hvalues
  refine ⟨String.toList_inj.1 hnames, ?_⟩
  cases e
  cases e'
  cases htype
  cases hvalue
  rfl

/-! ## All definitions -/

namespace Arguments

/-- The definitions of the names that have an entry. -/
def definitions (a : Arguments) : List String := a.sorted.map fun (name, e) => e.render name

/-- Whether there is no colon in the names that have an entry. -/
def ColonFree (a : Arguments) : Prop := ∀ name ∈ a.entries.keys, ':' ∉ name.toList

theorem mem_sorted_iff : (name, e) ∈ a.sorted ↔ a.entries.find? name = some e := by
  rw [sorted, (List.mergeSort_perm _ _).mem_iff, OrderedMap.mem_pairs_iff]

theorem sorted_pairwise (a : Arguments) : (a.sorted.map Prod.fst).Pairwise (· < ·) :=
  a.entries.sorted_keys

theorem definitions_of_find? (h : ∀ name, a.entries.find? name = a'.entries.find? name) :
    a.definitions = a'.definitions :=
  congrArg (List.map _) (OrderedMap.sorted_eq_of_find? h)

theorem ColonFree.of_mem_sorted (h : a.ColonFree) {p : String × Entry} (hp : p ∈ a.sorted) :
    ':' ∉ p.1.toList := by
  refine h p.1 (OrderedMap.mem_keys_iff.2 ?_)
  rw [mem_sorted_iff.1 hp]
  rfl

theorem map_render_inj {pairs pairs' : List (String × Entry)} (hpairs : ∀ p ∈ pairs, ':' ∉ p.1.toList)
    (hpairs' : ∀ p ∈ pairs', ':' ∉ p.1.toList)
    (h : pairs.map (fun (name, e) => e.render name) = pairs'.map fun (name, e) => e.render name) :
    pairs = pairs' := by
  induction pairs generalizing pairs' with
  | nil => exact (List.map_eq_nil_iff.1 h.symm).symm
  | cons p pairs ih =>
    cases pairs' with
    | nil => cases h
    | cons p' pairs' =>
      obtain ⟨hfirst, hrest⟩ := List.cons.inj h
      obtain ⟨hname, hentry⟩ := Entry.render_inj (hpairs p List.mem_cons_self)
        (hpairs' p' List.mem_cons_self) hfirst
      rw [ih (List.forall_mem_of_forall_mem_cons hpairs) (List.forall_mem_of_forall_mem_cons hpairs') hrest,
        Prod.ext hname hentry]

/-- The definitions tell the entry of every name when there is no colon in the names. -/
theorem find?_of_definitions (ha : a.ColonFree) (ha' : a'.ColonFree)
    (h : a.definitions = a'.definitions) (name : String) :
    a.entries.find? name = a'.entries.find? name := by
  have hsorted : a.sorted = a'.sorted :=
    map_render_inj (fun p hp => ha.of_mem_sorted hp) (fun p hp => ha'.of_mem_sorted hp) h
  refine Option.ext fun e => ?_
  rw [← mem_sorted_iff, ← mem_sorted_iff, hsorted]

/-! ## After a run of operations -/

/-- Operations that come to the same for each name leave the same definitions. -/
theorem definitions_of_history (h : ∀ name, history name ops = history name ops') :
    (after ops).definitions = (after ops').definitions :=
  definitions_of_find? fun name => by rw [find?_after, find?_after, h name]

theorem history_of_filter (h : ops.filter (name ∈ ·.names) = ops'.filter (name ∈ ·.names)) :
    history name ops = history name ops' := by
  rw [← history_filter, h, history_filter]

/-- Operations that touch no name together can be exchanged. -/
theorem filter_exchange {op op' : Operation} (h : ∀ name ∈ op.names, name ∉ op'.names)
    (before later : List Operation) (name : String) :
    (before ++ op :: op' :: later).filter (name ∈ ·.names) =
      (before ++ op' :: op :: later).filter (name ∈ ·.names) := by
  simp only [List.filter_append, List.filter_cons]
  by_cases hop : name ∈ op.names
  · simp [hop, h name hop]
  · simp [hop]

/-- The flags of the operations that are for both compilers. -/
def compilerFlags (ops : List Operation) : List String :=
  ops.filterMap fun
    | .compilerFlag flag => some flag
    | _ => none

/-- A name that every operation leaves alone except those for both compilers has their flags appended. -/
theorem history_of_compilerFlags
    (hname : name = "CMAKE_C_FLAGS" ∨ name = "CMAKE_CXX_FLAGS")
    (h : ∀ op ∈ ops, name ∈ op.names → ∃ flag, op = .compilerFlag flag) :
    history name ops = (compilerFlags ops).map .appended := by
  induction ops with
  | nil => rfl
  | cons op ops ih =>
    obtain ⟨hop, hops⟩ := List.forall_mem_cons.1 h
    rw [history_cons, ih hops]
    by_cases htouch : name ∈ op.names
    · obtain ⟨flag, rfl⟩ := hop htouch
      rcases hname with rfl | rfl <;> rfl
    · rw [Operation.changesOf_eq_nil_iff.2 htouch]
      cases op with
      | compilerFlag flag =>
        exact absurd (by simpa [Operation.names, Operation.changes] using hname) htouch
      | _ => rfl

/-- The entry of flags: the flags that are not empty with single blanks between them, if there are any. -/
def flagEntry (flags : List String) : Option Entry :=
  if flags.filter (· ≠ "") = [] then none else some ⟨.string, Text.join " " (flags.filter (· ≠ ""))⟩

/-- The arguments after a run of operations are canonical: those for the generator in the order of the
operations, then one definition for each name with an entry, in the order of the names.  The entry of a
name is its last assignment with the texts that were appended later, so it depends on nothing but the
operations that touch the name, and operations on different names can change places.  Flags for both
compilers come to the same entry for both.  Without colons in the names the definitions tell every
entry. -/
theorem after_canonical (ops : List Operation) :
    (∃ pairs : List (String × Entry),
      (after ops).toList =
        ops.flatMap Operation.leading ++ pairs.map (fun (name, e) => e.render name) ∧
      (pairs.map Prod.fst).Pairwise (· < ·) ∧
      ∀ name e, (name, e) ∈ pairs ↔ (after ops).entries.find? name = some e) ∧
    (∀ name, (after ops).entries.find? name =
      (after (ops.filter (name ∈ ·.names))).entries.find? name) ∧
    (∀ name, (∃ last texts, EndsWith (history name ops) last texts) ∧
      ∀ last texts, EndsWith (history name ops) last texts →
        (after ops).entries.find? name = settled last texts) ∧
    (∀ ops', (∀ name, ops.filter (name ∈ ·.names) = ops'.filter (name ∈ ·.names)) →
      (after ops').definitions = (after ops).definitions) ∧
    (∀ before op op' later, ops = before ++ op :: op' :: later →
      (∀ name ∈ op.names, name ∉ op'.names) →
      (after (before ++ op' :: op :: later)).definitions = (after ops).definitions) ∧
    (∀ name, name = "CMAKE_C_FLAGS" ∨ name = "CMAKE_CXX_FLAGS" →
      (∀ op ∈ ops, name ∈ op.names → ∃ flag, op = .compilerFlag flag) →
      (after ops).entries.find? name = flagEntry (compilerFlags ops)) ∧
    (∀ ops', (after ops).ColonFree → (after ops').ColonFree →
      (after ops').definitions = (after ops).definitions →
      ∀ name, (after ops').entries.find? name = (after ops).entries.find? name) := by
  refine ⟨⟨(after ops).sorted, ?_, sorted_pairwise _, fun name e => mem_sorted_iff⟩,
    ?_, ?_, ?_, ?_, ?_, ?_⟩
  · rw [toList, leading_after]
  · intro name
    rw [find?_after, find?_after, history_filter]
  · intro name
    refine ⟨exists_endsWith _, fun last texts hends => ?_⟩
    rw [find?_after, hends.foldl_eq]
  · intro ops' h
    exact definitions_of_history fun name => history_of_filter (h name).symm
  · rintro before op op' later rfl h
    exact definitions_of_history fun name => history_of_filter (filter_exchange h before later name).symm
  · intro name hname h
    rw [find?_after, history_of_compilerFlags hname h, foldl_appended]
    rfl
  · intro ops' hcolon hcolon' h name
    exact find?_of_definitions hcolon' hcolon h name

theorem after_canonical_twoFlags :
    (after [.compilerFlag "-O2", .generator "Ninja", .compilerFlag "", .compilerFlag "-g"]).entries.find?
      "CMAKE_CXX_FLAGS" = some ⟨.string, "-O2 -g"⟩ ∧
    (after [.compilerFlag "-O2", .generator "Ninja", .compilerFlag "", .compilerFlag "-g"]).entries.find?
      "CMAKE_C_FLAGS" = some ⟨.string, "-O2 -g"⟩ ∧
    (after [.generator "Ninja", .compilerFlag "-O2", .compilerFlag "", .compilerFlag "-g"]).definitions =
      (after [.compilerFlag "-O2", .generator "Ninja", .compilerFlag "", .compilerFlag "-g"]).definitions ∧
    ∀ name, (after [.generator "Ninja", .compilerFlag "-O2", .compilerFlag "",
        .compilerFlag "-g"]).entries.find? name =
      (after [.compilerFlag "-O2", .generator "Ninja", .compilerFlag "",
        .compilerFlag "-g"]).entries.find? name := by
  obtain ⟨-, -, hentry, hreordered, hexchanged, hflags, htold⟩ := after_canonical
    [.compilerFlag "-O2", .generator "Ninja", .compilerFlag "", .compilerFlag "-g"]
  have hsame := hexchanged [] (.compilerFlag "-O2") (.generator "Ninja")
    [.compilerFlag "", .compilerFlag "-g"] rfl (by decide)
  refine ⟨(hentry "CMAKE_CXX_FLAGS").2 none ["-O2", "", "-g"] (.unassigned ["-O2", "", "-g"]),
    hflags "CMAKE_C_FLAGS" (.inl rfl) ?_, hreordered _ fun name => ?_, htold _ ?_ ?_ hsame⟩
  · intro op hop hname
    fin_cases hop
    · exact ⟨_, rfl⟩
    · exact absurd hname (by decide)
    · exact ⟨_, rfl⟩
    · exact ⟨_, rfl⟩
  · have hapart : ∀ name ∈ (Operation.compilerFlag "-O2").names,
        name ∉ (Operation.generator "Ninja").names := by decide
    exact filter_exchange hapart [] _ name
  · unfold ColonFree
    decide
  · unfold ColonFree
    decide

end Arguments

end Sysroot.Configure

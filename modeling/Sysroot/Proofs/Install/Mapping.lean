import Sysroot.Proofs.Install.Astray

/-!
# Which source goes where

What is below a directory is listed completely (`mem_filesUnder`).  So the mapping of a request is
known place by place: a stage gives what is in its sections, and the headers that come with it
what is at the remaining places (`Request.Gives`, `Request.mem_mapping`).
-/

namespace Sysroot.Install

open Sysroot.Tree Sysroot.Tree.Action

variable {t t' : Tree} {dir stage source : Path} {l : Library} {place : String} {x : List String}
  {item : String × Path} {m : OrderedMap String Path}

/-! ## Entries of a mapping -/

theorem mem_mappingUnder {names : List String} (h : t.surveyed dir = .ok true) :
    item ∈ mappingUnder t (Path.ofNames names) dir ↔
      ∃ r, item = ((Path.ofNames (names ++ r)).text, dir.within r) ∧
        dir.within r ∈ t.filesUnder dir := by
  constructor
  · intro hitem
    obtain ⟨hsource, -, r, -, -, -, -, -, rfl⟩ := entry_of_mem hitem
    exact ⟨r, rfl, hsource⟩
  · rintro ⟨r, rfl, hsource⟩
    refine List.mem_map.2 ⟨dir.within r, (mem_walked h).2 hsource, ?_⟩
    have hbelow : (dir.within r).below? dir = some (Path.ofNames r) := by
      simp [Path.below?, Path.within, Path.ofNames]
    rw [hbelow]
    rfl

/-- Whether a directory of headers gives a source to the place of some names. -/
def Heads (t : Tree) (dir : Path) (place : String) (x : List String) (source : Path) : Prop :=
  ∃ r, x = "include" :: (Path.ofText place).parts ++ r ∧ source = dir.within r ∧
    source ∈ t.filesUnder dir

/-- Whether a stage gives a source to the place of some names. -/
def Stages (t : Tree) (stage : Path) (x : List String) (source : Path) : Prop :=
  ∃ name ∈ standardSections, ∃ r, x = name :: r ∧ source = (stage / name).within r ∧
    source ∈ t.filesUnder (stage / name)

/-- Whether a request gives a source to the place of some names.  What is staged has precedence over
headers. -/
def Request.Gives (t : Tree) (x : List String) (source : Path) : Request → Prop
  | .stage s => Stages t s.stage x source ∨ (¬ ∃ source', Stages t s.stage x source') ∧
      ∃ dir place, s.headers = some (dir, place) ∧ Heads t dir place x source
  | .headers dir place => Heads t dir place x source

/-- Whether a request is for the standard sections of its stage. -/
def Request.Standard : Request → Prop
  | .stage s => s.sections = standardSections
  | .headers .. => True

theorem spelled_of_filesUnder {names r : List String} (hnames : Path.Spelled names)
    (h : dir.within r ∈ t.filesUnder dir) : Path.Spelled (names ++ r) := by
  obtain ⟨D, r', n, -, -, heq, hn, -⟩ := exists_of_mem_filesUnder h
  obtain rfl : r = r' := List.append_cancel_left (congrArg Path.parts heq)
  intro name hname
  rcases List.mem_append.1 hname with hname | hname
  · exact hnames name hname
  · exact Path.Spelled.of_plain (plain_of_get? hn) name hname

theorem Heads.spelled (h : Heads t dir place x source) : Path.Spelled x := by
  obtain ⟨r, rfl, rfl, hsource⟩ := h
  refine spelled_of_filesUnder (fun name hname => ?_) hsource
  rcases List.mem_cons.1 hname with rfl | hname
  · decide
  · exact Path.spelled_parts place name hname

theorem Stages.spelled (h : Stages t stage x source) : Path.Spelled x := by
  obtain ⟨name, hname, r, rfl, rfl, hsource⟩ := h
  have hsection : Plain [name] := plain_cons.2 ⟨(section_of_standard hname).2, plain_nil⟩
  exact spelled_of_filesUnder (Path.Spelled.of_plain hsection) hsource

theorem Request.Gives.spelled {r : Request} (h : r.Gives t x source) : Path.Spelled x := by
  cases r with
  | stage s =>
    rcases h with h | ⟨-, dir, place, -, h⟩
    · exact h.spelled
    · exact h.spelled
  | headers dir place => exact Heads.spelled h

/-- What is below `lib` comes from the stage. -/
theorem Request.gives_lib {s : Source} {names : List String} :
    (∃ source, (Request.stage s).Gives t ("lib" :: names) source) ↔
      (s.stage / "lib").within names ∈ t.filesUnder (s.stage / "lib") := by
  constructor
  · rintro ⟨source, ⟨name, -, r, heq, rfl, hsource⟩ | ⟨-, dir, place, -, r, heq, -⟩⟩
    · obtain ⟨rfl, rfl⟩ := List.cons.inj heq
      exact hsource
    · exact absurd (List.cons.inj heq).1 (by decide)
  · exact fun hsource => ⟨_, .inl ⟨"lib", by decide, names, rfl, rfl, hsource⟩⟩

/-- What is below `include` comes from the stage, or from the headers that are installed besides. -/
theorem Request.gives_include {s : Source} {names : List String} :
    (∃ source, (Request.stage s).Gives t ("include" :: names) source) ↔
      (s.stage / "include").within names ∈ t.filesUnder (s.stage / "include") ∨
      ∃ dir place r, s.headers = some (dir, place) ∧ names = (Path.ofText place).parts ++ r ∧
        dir.within r ∈ t.filesUnder dir := by
  constructor
  · rintro ⟨source, ⟨name, -, r, heq, rfl, hsource⟩ | ⟨-, dir, place, hheaders, r, heq, rfl, hsource⟩⟩
    · obtain ⟨rfl, rfl⟩ := List.cons.inj heq
      exact .inl hsource
    · exact .inr ⟨dir, place, r, hheaders, (List.cons.inj heq).2, hsource⟩
  · rintro (hsource | ⟨dir, place, r, hheaders, rfl, hsource⟩)
    · exact ⟨_, .inl ⟨"include", by decide, names, rfl, rfl, hsource⟩⟩
    · by_cases hstaged : ∃ source, Stages t s.stage
        ("include" :: ((Path.ofText place).parts ++ r)) source
      · exact hstaged.imp fun _ => .inl
      · exact ⟨_, .inr ⟨hstaged, dir, place, hheaders, r, rfl, rfl, hsource⟩⟩

/-- A stage gives one source at most to a place. -/
theorem Stages.unique {source' : Path} (h : Stages t stage x source)
    (h' : Stages t stage x source') : source = source' := by
  obtain ⟨name, -, r, rfl, rfl, -⟩ := h
  obtain ⟨name', -, r', heq, rfl, -⟩ := h'
  obtain ⟨rfl, rfl⟩ := List.cons.inj heq
  rfl

/-! ## The mapping of a request -/

/-- Whether no key comes with two sources. -/
def Keyed (pairs : List (String × Path)) : Prop :=
  ∀ i ∈ pairs, ∀ j ∈ pairs, i.1 = j.1 → i = j

theorem keyed_nil : Keyed [] := fun _ hi => absurd hi List.not_mem_nil

/-- Of two lists of entries made to a map, the second one has precedence. -/
theorem mem_ofList_append {as bs : List (String × Path)} (ha : Keyed as) (hb : Keyed bs) :
    item ∈ (OrderedMap.ofList (as ++ bs)).pairs ↔
      item ∈ bs ∨ item ∈ as ∧ ∀ b ∈ bs, b.1 ≠ item.1 := by
  obtain ⟨key, source⟩ := item
  have hmem : ∀ {cs : List (String × Path)} {c : String × Path},
      (cs.reverse.find? fun p => p.1 = key) = some c → c ∈ cs ∧ c.1 = key := fun hfind =>
    ⟨List.mem_reverse.1 (List.mem_of_find?_eq_some hfind), by simpa using List.find?_some hfind⟩
  have hnone : ∀ {cs : List (String × Path)}, (cs.reverse.find? fun p => p.1 = key) = none →
      ∀ c ∈ cs, c.1 ≠ key := fun hfind c hc => by
    simpa using List.find?_eq_none.1 hfind c (List.mem_reverse.2 hc)
  -- a key that is found comes with its only source
  have hfound : ∀ {cs : List (String × Path)} {c : String × Path}, Keyed cs →
      (cs.reverse.find? fun p => p.1 = key) = some c → (c.2 = source ↔ (key, source) ∈ cs) := by
    rintro cs ⟨key', source'⟩ hc hfind
    obtain ⟨hin, rfl⟩ := hmem hfind
    refine ⟨fun heq => heq ▸ hin, fun hin' => ?_⟩
    exact congrArg Prod.snd (hc _ hin _ hin' rfl)
  rw [OrderedMap.mem_pairs_iff, OrderedMap.ofList, OrderedMap.find?_insertAll,
    OrderedMap.find?_empty, Option.or_none, List.reverse_append, List.find?_append]
  cases hbs : bs.reverse.find? fun p => p.1 = key with
  | some b =>
    obtain ⟨hin, hkey⟩ := hmem hbs
    rw [Option.some_or, Option.map_some, Option.some.injEq, hfound hb hbs]
    exact ⟨.inl, fun h => h.resolve_right fun hno => hno.2 b hin hkey⟩
  | none =>
    have hno := hnone hbs
    rw [Option.none_or, or_iff_right fun hin => hno _ hin rfl, and_iff_left hno]
    cases has : as.reverse.find? fun p => p.1 = key with
    | some a => rw [Option.map_some, Option.some.injEq, hfound ha has]
    | none =>
      refine ⟨fun heq => ?_, fun hin => absurd rfl (hnone has _ hin)⟩
      cases heq

theorem mem_headerMapping {pairs : List (String × Path)} (hplace : Path.GoesDown place)
    (h : headerMapping l dir place t = (.ok pairs, t')) :
    item ∈ pairs ↔ ∃ x, item.1 = (Path.ofNames x).text ∧ Heads t dir place x item.2 := by
  have hbase : Path.ofText "include" / place =
      Path.ofNames ("include" :: (Path.ofText place).parts) := by
    show Path.ofText "include" ++ Path.ofText place = _
    rw [show Path.ofText place = Path.ofNames (Path.ofText place).parts by
      rw [Path.ofNames, ← hplace.1]]
    rfl
  rw [headerMapping_apply, hbase] at h
  split at h
  · cases h
  · cases h
  · next hsurveyed =>
    cases h
    rw [mem_mappingUnder hsurveyed]
    constructor
    · rintro ⟨r, rfl, hsource⟩
      exact ⟨_, rfl, r, rfl, rfl, hsource⟩
    · rintro ⟨x, hkey, r, rfl, hr, hsource⟩
      exact ⟨r, Prod.ext hkey hr, hr ▸ hsource⟩

/-- A directory with a file or link in it is one. -/
theorem query_of_filesUnder (h : source ∈ t.filesUnder dir) :
    t.query dir Tree.isDir = .ok true := by
  obtain ⟨D, r, n, hlocate, hr, -, hn, -⟩ := exists_of_mem_filesUnder h
  rw [query_eq_ok (by rw [hlocate]; exact nofun), isDir, node?, hlocate]
  simp [get?_of_append hn hr]

theorem mem_sectionMapping {name : String} {pairs : List (String × Path)}
    (hname : name ∈ standardSections) (h : sectionMapping stage name t = (.ok pairs, t')) :
    item ∈ pairs ↔ ∃ r, item.1 = (Path.ofNames (name :: r)).text ∧
      item.2 = (stage / name).within r ∧ item.2 ∈ t.filesUnder (stage / name) := by
  have hsection : Path.ofText name = Path.ofNames [name] := by
    rcases List.mem_cons.1 hname with rfl | hname
    · decide
    · obtain rfl := List.mem_singleton.1 hname
      decide
  rw [sectionMapping_apply] at h
  split at h
  · cases h
  · next hsurveyed =>
    cases h
    refine ⟨fun hitem => absurd hitem List.not_mem_nil, ?_⟩
    rintro ⟨r, -, -, hsource⟩
    have hquery := query_of_surveyed hsurveyed
    rw [query_of_filesUnder hsource] at hquery
    cases hquery
  · next hsurveyed =>
    cases h
    rw [hsection, mem_mappingUnder hsurveyed]
    constructor
    · rintro ⟨r, rfl, hsource⟩
      exact ⟨r, rfl, rfl, hsource⟩
    · rintro ⟨r, hkey, hr, hsource⟩
      exact ⟨r, Prod.ext hkey hr, hr ▸ hsource⟩

/-- The sections of a stage give what the stage does. -/
theorem mem_sections {staged : List (List (String × Path))}
    (h : standardSections.mapM (sectionMapping stage) t = (.ok staged, t')) :
    item ∈ staged.flatten ↔ ∃ x, item.1 = (Path.ofNames x).text ∧ Stages t stage x item.2 := by
  have hreads := reads_sectionMapping stage
  rw [List.mem_flatten]
  constructor
  · rintro ⟨part, hpart, hitem⟩
    obtain ⟨name, hname, hsection⟩ := Reads.exists_of_mem_mapM hreads h hpart
    obtain ⟨r, hkey, hr, hsource⟩ := (mem_sectionMapping hname hsection).1 hitem
    exact ⟨_, hkey, name, hname, r, rfl, hr, hsource⟩
  · rintro ⟨x, hkey, name, hname, r, rfl, hr, hsource⟩
    obtain ⟨part, hpart, hsection⟩ := Reads.mem_of_mapM hreads h hname
    exact ⟨part, hpart, (mem_sectionMapping hname hsection).2 ⟨r, hkey, hr, hsource⟩⟩

theorem Heads.unique {source' : Path} (h : Heads t dir place x source)
    (h' : Heads t dir place x source') : source = source' := by
  obtain ⟨r, rfl, rfl, -⟩ := h
  obtain ⟨r', heq, rfl, -⟩ := h'
  rw [List.append_cancel_left heq]

/-- What a request asks for is what it gives. -/
theorem Request.mem_mapping {r : Request} (hin : r.Inward) (hstandard : r.Standard)
    (h : r.mapping l t = (.ok m, t')) :
    item ∈ m.pairs ↔ ∃ x, item.1 = (Path.ofNames x).text ∧ r.Gives t x item.2 := by
  have hheads : ∀ {dir place pairs t'}, Path.GoesDown place →
      headerMapping l dir place t = (.ok pairs, t') → Keyed pairs := by
    intro dir place pairs t' hplace hpairs i hi j hj heq
    obtain ⟨x, hx, hhead⟩ := (mem_headerMapping hplace hpairs).1 hi
    obtain ⟨y, hy, hhead'⟩ := (mem_headerMapping hplace hpairs).1 hj
    obtain rfl := Path.Spelled.eq_of_text hhead.spelled hhead'.spelled (hx.symm.trans (heq.trans hy))
    exact Prod.ext heq (hhead.unique hhead')
  cases r with
  | headers dir place =>
    obtain ⟨pairs, t₁, hpairs, hm⟩ := Effect.bind_ok h
    cases hm
    have hplace := hin.1 dir place (List.mem_singleton_self _)
    have hmem : item ∈ (OrderedMap.ofList pairs).pairs ↔ _ :=
      mem_ofList_append keyed_nil (hheads hplace hpairs)
    rw [hmem, mem_headerMapping hplace hpairs]
    simp only [List.not_mem_nil, false_and, or_false]
    rfl
  | stage s =>
    obtain ⟨-, headers, staged, hheaders, hstaged, rfl⟩ := mapping_stage h
    rw [show s.sections = standardSections from hstandard] at hstaged
    have hkeyed : Keyed staged.flatten := by
      intro i hi j hj heq
      obtain ⟨x, hx, hstage⟩ := (mem_sections hstaged).1 hi
      obtain ⟨y, hy, hstage'⟩ := (mem_sections hstaged).1 hj
      obtain rfl := Path.Spelled.eq_of_text hstage.spelled hstage'.spelled
        (hx.symm.trans (heq.trans hy))
      exact Prod.ext heq (hstage.unique hstage')
    have hother : ∀ {x}, Path.Spelled x → item.1 = (Path.ofNames x).text →
        ((∀ b ∈ staged.flatten, b.1 ≠ item.1) ↔ ¬ ∃ source, Stages t s.stage x source) := by
      intro x hx hkey
      constructor
      · rintro hno ⟨source, hsource⟩
        exact hno (item.1, source) ((mem_sections hstaged).2 ⟨x, hkey, hsource⟩) rfl
      · intro hno b hb heq
        obtain ⟨y, hy, hstage⟩ := (mem_sections hstaged).1 hb
        obtain rfl := Path.Spelled.eq_of_text hstage.spelled hx (hy.symm.trans (heq.trans hkey))
        exact hno ⟨_, hstage⟩
    rcases hsource : s.headers with _ | ⟨dir, place⟩
    · rw [hsource] at hheaders
      cases hheaders
      rw [mem_ofList_append keyed_nil hkeyed, mem_sections hstaged]
      simp only [List.not_mem_nil, false_and, or_false, Gives, hsource, reduceCtorEq, exists_false,
        and_false]
    · rw [hsource] at hheaders
      have hplace : Path.GoesDown place := hin.1 dir place (by simp [headed, hsource])
      rw [mem_ofList_append (hheads hplace hheaders) hkeyed, mem_sections hstaged,
        mem_headerMapping hplace hheaders]
      constructor
      · rintro (⟨x, hkey, hstage⟩ | ⟨⟨x, hkey, hhead⟩, hno⟩)
        · exact ⟨x, hkey, .inl hstage⟩
        · exact ⟨x, hkey, .inr ⟨(hother hhead.spelled hkey).1 hno, dir, place, hsource, hhead⟩⟩
      · rintro ⟨x, hkey, hstage | ⟨hno, dir', place', heq, hhead⟩⟩
        · exact .inl ⟨x, hkey, hstage⟩
        · cases hsource.symm.trans heq
          exact .inr ⟨⟨x, hkey, hhead⟩, (hother hhead.spelled hkey).2 hno⟩

end Sysroot.Install

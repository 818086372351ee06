import Sysroot.Proofs.Text.Utf8
import Sysroot.Proofs.Tree.Paving

/-!
# Files that were written

What is written to a path is what the path's file holds afterwards (`contentOf_of_writeFile`).  Writing
makes a file where the last link on the way leads, and reading follows the same way to it: on the way
nothing has changed but the file itself, and a file is the end of every way.
-/

namespace Sysroot

namespace Path

/-- A text without a NUL names no component with one. -/
theorem null_not_mem_parts {text : String} (h : Tree.hasNull text = false) :
    ∀ name ∈ (ofText text).parts, '\x00' ∉ name.toList := by
  intro name hname hnull
  obtain ⟨cs, hcs, rfl⟩ := List.mem_map.1 hname
  have hpart : String.ofList cs ∈ Text.split '/' text :=
    List.mem_map_of_mem (List.mem_filter.1 hcs).1
  have hmark : "/".toList = ['/'] := rfl
  have hmem := (Text.mem_join "/" '/' hmark (by decide)).2 ⟨_, hpart, hnull⟩
  rw [Text.join_split hmark] at hmem
  exact absurd (decide_eq_true hmem) (by rw [← Tree.hasNull, h]; decide)

end Path

namespace Tree

variable {t t' : Tree} {k : Nat} {here l : Location} {names : List String} {p : Path}
  {content : List UInt8} {executable : Bool}

/-! ## Components that can become names -/

/-- Whether no component has a slash or a NUL in it. -/
def Clean (names : List String) : Prop := ∀ name ∈ names, '/' ∉ name.toList ∧ '\x00' ∉ name.toList

/-- Whether no target of a link has a NUL in it. -/
def CleanTargets (t : Tree) : Prop := ∀ l target, t.get? l = some (.link target) → hasNull target = false

theorem clean_of_spelled (h : Path.Spelled names) (hnull : ∀ name ∈ names, '\x00' ∉ name.toList) :
    Clean names := fun name hname => ⟨(h name hname).2.2, hnull name hname⟩

theorem clean_textNames {target : String} (h : hasNull target = false) : Clean (textNames target) := by
  have hparts : Clean (Path.ofText target).parts :=
    clean_of_spelled (Path.spelled_parts target) (Path.null_not_mem_parts h)
  rw [textNames]
  split
  · exact List.forall_mem_append.2 ⟨hparts, List.forall_mem_singleton.2 (by decide)⟩
  · split
    · exact List.forall_mem_append.2 ⟨hparts, List.forall_mem_singleton.2 (by decide)⟩
    · exact hparts

theorem isName_of_clean {name : String} (h : '/' ∉ name.toList ∧ '\x00' ∉ name.toList)
    (hdot : ¬ (name = "." ∨ name = "")) (hup : name ≠ "..") (hfits : ¬ nameLimit < name.utf8ByteSize) :
    isName name = true :=
  isName_iff.2 ⟨⟨fun heq => hdot (.inr heq), fun heq => hdot (.inl heq), hup⟩, Nat.not_lt.1 hfits, h⟩

/-! ## The way to a new file -/

/-- Whether there is a directory or a file at a location. -/
def Stands (t : Tree) (l : Location) : Prop :=
  t.get? l = some .dir ∨ ∃ content executable, t.get? l = some (.file content executable)

/-- A file can take the place of a file. -/
theorem canSet_of_file (h : t.get? l = some (.file content executable)) (n : Node) : t.canSet l n = true := by
  have hl : l ≠ [] := by
    rintro rfl
    cases h
  obtain ⟨front, name, rfl⟩ : ∃ front name, l = front ++ [name] :=
    ⟨_, _, (List.dropLast_concat_getLast hl).symm⟩
  have hdir := get?_dropLast h
  rw [List.dropLast_concat] at hdir
  exact canSet_of_dir hdir (isName_of_get? h name (by simp)) (.inr (by simp [h]))

/-- A way to a new file ends at a directory or where a file can be put. -/
theorem stretch_newFile (htargets : t.CleanTargets) (hnames : Clean names) (hhere : t.Stands here) :
    (∀ l, stretch t .newFile here names = .arrived l → t.get? l = some .dir ∨
      (∀ target, t.get? l ≠ some (.link target)) ∧ ∀ n, t.canSet l n = true) ∧
    ∀ h ns, stretch t .newFile here names = .link h ns → t.Stands h ∧ Clean ns := by
  induction names generalizing here with
  | nil =>
    refine ⟨fun l hl => ?_, fun _ _ h => by cases h⟩
    cases hl
    obtain hdir | ⟨content, executable, hfile⟩ := hhere
    · exact .inl hdir
    · exact .inr ⟨by simp [hfile], canSet_of_file hfile⟩
  | cons name names ih =>
    obtain ⟨hname, hrest⟩ := List.forall_mem_cons.1 hnames
    obtain hdir | ⟨content, executable, hfile⟩ := hhere
    · rw [stretch, hdir]
      dsimp only
      by_cases hdot : name = "." ∨ name = ""
      · rw [if_pos hdot]
        exact ih hrest (.inl hdir)
      rw [if_neg hdot]
      by_cases hup : name = ".."
      · rw [if_pos hup]
        exact ih hrest (.inl (get?_dropLast hdir))
      rw [if_neg hup]
      by_cases hslash : Aim.newFile = .newFile ∧ names = [""]
      · rw [if_pos hslash]
        simp
      rw [if_neg hslash]
      by_cases hlong : nameLimit < name.utf8ByteSize
      · rw [if_pos hlong]
        simp
      rw [if_neg hlong]
      rcases hnode : t.get? (here ++ [name]) with _ | (⟨content, executable⟩ | target | _)
      · by_cases hlast : names = []
        · simp only [if_pos hlast]
          refine ⟨fun l hl => ?_, by simp⟩
          cases hl
          exact .inr ⟨by simp [hnode], fun n =>
            canSet_of_dir hdir (isName_of_clean hname hdot hup hlong) (.inr (by simp [hnode]))⟩
        · simp only [if_neg hlast]
          simp
      · exact ih hrest (.inr ⟨content, executable, hnode⟩)
      · simp only [reduceCtorEq, and_false, if_false]
        refine ⟨by simp, fun h ns heq => ?_⟩
        cases heq
        refine ⟨.inl ?_, List.forall_mem_append.2 ⟨clean_textNames (htargets _ _ hnode), hrest⟩⟩
        split
        · exact get?_root t
        · exact hdir
      · exact ih hrest (.inl hnode)
    · rw [stretch, hfile]
      simp

/-- The way to a new file is the way to it when it is there. -/
theorem stretch_added (hadded : Added l (.file content executable) t t') (hdir : t.get? l ≠ some .dir)
    (hlink : ∀ target, t.get? l ≠ some (.link target)) (here : Location) (names : List String) :
    (stretch t .newFile here names = .arrived l → stretch t' .target here names = .arrived l) ∧
    ∀ h ns, stretch t .newFile here names = .link h ns → stretch t' .target here names = .link h ns := by
  have hsame : ∀ {m}, t.get? m = some .dir → t'.get? m = some .dir := by
    intro m hm
    rw [hadded.get?, if_neg, hm]
    rintro rfl
    exact hdir hm
  induction names generalizing here with
  | nil => exact ⟨id, fun _ _ h => by cases h⟩
  | cons name names ih =>
    rw [stretch, stretch]
    rcases hhere : t.get? here with _ | (_ | _ | _)
    · simp
    · simp
    · simp
    rw [hsame hhere]
    dsimp only
    by_cases hdot : name = "." ∨ name = ""
    · rw [if_pos hdot, if_pos hdot]
      exact ih _
    rw [if_neg hdot, if_neg hdot]
    by_cases hup : name = ".."
    · rw [if_pos hup, if_pos hup]
      exact ih _
    rw [if_neg hup, if_neg hup]
    by_cases hslash : Aim.newFile = .newFile ∧ names = [""]
    · rw [if_pos hslash]
      simp
    have htarget : ¬ (Aim.target = .newFile ∧ names = [""]) := by simp
    rw [if_neg hslash, if_neg htarget]
    by_cases hlong : nameLimit < name.utf8ByteSize
    · rw [if_pos hlong]
      simp
    rw [if_neg hlong, if_neg hlong, hadded.get?]
    by_cases hl : here ++ [name] = l
    · rw [if_pos hl, hl]
      rcases hnode : t.get? l with _ | (_ | target | _)
      · by_cases hlast : names = []
        · simp only [hlast]
          exact ⟨id, by simp⟩
        · simp only [if_neg hlast]
          simp
      · exact ih l
      · exact absurd hnode (hlink target)
      · exact absurd hnode hdir
    · rw [if_neg hl]
      rcases hnode : t.get? (here ++ [name]) with _ | (_ | target | _)
      · by_cases hlast : names = []
        · simp only [if_pos hlast]
          exact ⟨id, by simp⟩
        · simp only [if_neg hlast]
          simp
      · exact ih _
      · simp only [reduceCtorEq, and_false, if_false]
        exact ⟨id, fun _ _ => id⟩
      · exact ih _

/-- Where a way to a new file ends a file can be put, and is found again. -/
theorem stretch_arrived (htargets : t.CleanTargets) (hnames : Clean names) (hhere : t.Stands here)
    (harrived : stretch t .newFile here names = .arrived l) (hdir : t.get? l ≠ some .dir) :
    (∀ target, t.get? l ≠ some (.link target)) ∧ (∀ n, t.canSet l n = true) ∧
      ∀ {t' content executable}, Added l (.file content executable) t t' →
        stretch t' .target here names = .arrived l := by
  obtain ⟨hlink, hcan⟩ := ((stretch_newFile htargets hnames hhere).1 l harrived).resolve_left hdir
  exact ⟨hlink, hcan, fun hadded => (stretch_added hadded hdir hlink here names).1 harrived⟩

/-- Where a path to a new file leads: to a directory, or to where a file can be put and is found again. -/
theorem locateFrom_newFile (htargets : t.CleanTargets) (hnames : Clean names) (hhere : t.Stands here)
    (h : locateFrom t .newFile k here names = .ok l) (hdir : t.get? l ≠ some .dir) :
    (∀ target, t.get? l ≠ some (.link target)) ∧ (∀ n, t.canSet l n = true) ∧
      ∀ {t' content executable}, Added l (.file content executable) t t' →
        locateFrom t' .target k here names = .ok l := by
  induction k generalizing here names with
  | zero =>
    unfold locateFrom at h ⊢
    rcases hs : stretch t .newFile here names with l' | e | ⟨h', ns⟩ <;> rw [hs] at h <;> cases h
    obtain ⟨hlink, hcan, hfound⟩ := stretch_arrived htargets hnames hhere hs hdir
    refine ⟨hlink, hcan, fun hadded => ?_⟩
    rw [hfound hadded]
  | succ k ih =>
    unfold locateFrom at h ⊢
    rcases hs : stretch t .newFile here names with l' | e | ⟨h', ns⟩ <;> rw [hs] at h
    · cases h
      obtain ⟨hlink, hcan, hfound⟩ := stretch_arrived htargets hnames hhere hs hdir
      refine ⟨hlink, hcan, fun hadded => ?_⟩
      rw [hfound hadded]
    · cases h
    · obtain ⟨hstands, hclean⟩ := (stretch_newFile htargets hnames hhere).2 h' ns hs
      obtain ⟨hlink, hcan, hfound⟩ := ih hclean hstands h
      refine ⟨hlink, hcan, fun hadded => ?_⟩
      rw [(stretch_added hadded hdir hlink here names).2 h' ns hs]
      exact hfound hadded

/-! ## Writing and reading -/

/-- A path is placed where it leads when there is no NUL in its text. -/
theorem place_eq_ok_iff {aim : Aim} : t.place p aim = .ok l ↔
    hasNull p.text = false ∧ t.locate p aim = .ok l := by
  rw [place, placeOr]
  cases hasNull p.text with
  | true => simp
  | false => cases t.locate p aim <;> simp [Except.mapError]

/-- A file is written where the path to a new file leads, unless that is a directory. -/
theorem of_writeFile (h : t.writeFile p content = .ok t') : ∃ l executable,
    t.place p .newFile = .ok l ∧ t.get? l ≠ some .dir ∧ t' = t.set l (.file content executable) := by
  obtain ⟨l, hplace, h⟩ := Effect.except_bind_ok h
  refine ⟨l, ?_⟩
  rcases hnode : t.get? l with _ | (⟨old, executable⟩ | target | _) <;> rw [hnode] at h <;> cases h
  · exact ⟨false, hplace, nofun, rfl⟩
  · exact ⟨executable, hplace, nofun, rfl⟩
  · exact ⟨false, hplace, nofun, rfl⟩

/-- What is written to a path is read from it. -/
theorem contentOf_of_writeFile (htargets : t.CleanTargets) (hhome : t.get? t.home = some .dir)
    (hp : Path.Spelled p.parts) (h : t.writeFile p content = .ok t') : t'.contentOf p = .ok content := by
  obtain ⟨l, executable, hplace, hdir, rfl⟩ := of_writeFile h
  obtain ⟨hnull, hlocate⟩ := place_eq_ok_iff.1 hplace
  have hclean : Clean p.parts := by
    refine clean_of_spelled hp fun name hname hmem => ?_
    rw [Path.hasNull_text.2 ⟨name, hname, hmem⟩] at hnull
    cases hnull
  have hstands : t.Stands (t.startOf p) := by
    rw [startOf]
    split
    · exact .inl (get?_root t)
    · exact .inl hhome
  rw [locate] at hlocate
  split at hlocate
  · cases hlocate
  · next hshort =>
    obtain ⟨-, hcan, hfound⟩ := locateFrom_newFile htargets hclean hstands hlocate hdir
    have hadded : Added l (.file content executable) t _ := added_set (hcan (.file content executable))
    have hplace' : (t.set l (.file content executable)).place p = .ok l := by
      refine place_eq_ok_iff.2 ⟨hnull, ?_⟩
      rw [locate, if_neg hshort, startOf, hadded.home]
      exact hfound hadded
    rw [contentOf, hplace', Effect.except_ok_bind, hadded.get?, if_pos rfl]
    rfl

/-- A text that is written to a path is read from it when its line ends are line feeds. -/
theorem Action.readText_of_writeText {s : String} (htargets : t.CleanTargets)
    (hhome : t.get? t.home = some .dir) (hp : Path.Spelled p.parts)
    (hs : Text.unifyLineEnds s.toList = s.toList) (h : Action.writeText p s t = (.ok (), t')) :
    Action.readText p t' = (.ok s, t') := by
  have hcontent := contentOf_of_writeFile htargets hhome hp (Action.apply_ok h)
  have hask : Action.ask (contentOf · p) t' = (.ok (Text.Utf8.bytesOf s), t') := by
    rw [Action.ask_apply, hcontent]
  rw [Action.readText, Effect.bind_of_ok hask, Text.Utf8.bytesOf, Text.Utf8.decode?_encode]
  show (Except.ok (String.ofList (Text.unifyLineEnds s.toList)), t') = _
  rw [hs, String.ofList_toList]

end Tree

end Sysroot

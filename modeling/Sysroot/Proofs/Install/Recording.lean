import Sysroot.Proofs.Install.Siting
import Sysroot.Proofs.Json.RoundTrip

/-!
# The manifest of a library

A manifest is read off what is at its place (`manifestAt`): nothing stands for an empty list.
Adding files to it writes one file or is refused and changes nothing (`recordFiles_spec`), and what
was written lists the files that were given (`filesOf_manifestBytes`).
-/

namespace Sysroot.Install

open Sysroot.Tree Sysroot.Tree.Action

variable {t t' : Tree} {root : Path} {R : Location} {k : Nat} {l : Library} {files : List String}

/-- The components of the place of a manifest. -/
def manifestNames (l : Library) : List String := [".manifests", l.name ++ ".json"]

theorem isName_manifest (l : Library) : isName (l.name ++ ".json") = true := by
  cases l <;> rfl

theorem plain_manifestNames (l : Library) : Plain (manifestNames l) := by
  rw [manifestNames, plain_cons, plain_cons]
  exact ⟨by decide, isName_manifest l, plain_nil⟩

theorem manifestPath_eq (root : Path) (l : Library) :
    manifestPath root l = root.within (manifestNames l) := by
  rw [manifestPath, Path.div_name (isName_manifest l), manifestDir_eq, Path.within_within]
  rfl

/-! ## Reading -/

/-- What the content of a manifest lists. -/
def filesOf (root : Path) (l : Library) (content : List UInt8) : Except Fault (List String) :=
  match Text.Utf8.decode? content with
  | none => .error .notText
  | some cs =>
      match Json.read (String.ofList (Text.unifyLineEnds cs)) with
      | .error .longNumber => .error .longNumber
      | .error .tooDeep => .error .tooDeep
      | .error (.malformed ..) => .error (.caused (.manifestNotJson l (manifestPath root l).text))
      | .ok v =>
          match manifestFiles? v with
          | some files => .ok (sortedSet files)
          | none => .error (.caused (.manifestFilesInvalid l (manifestPath root l).text))

/-- What reading a manifest gives, from what is at its place, a link not being followed. -/
def manifestAt (root : Path) (l : Library) : Option Node → Except Fault (List String)
  | none => .ok []
  | some (.file content _) => filesOf root l content
  | some _ => .error (.system (.refused .isDirectory (manifestPath root l).text))

/-- A manifest that can be read is no directory. -/
theorem ne_dir_of_manifestAt {n : Option Node}
    (h : manifestAt root l n = .ok files) : n ≠ some .dir := by
  rintro rfl
  cases h

/-- Reading a manifest leaves the tree as it is. -/
theorem reads_readManifest (root : Path) (l : Library) : Reads (readManifest root l) := by
  refine (reads_ask _).bind fun there => ?_
  cases there with
  | false => exact reads_pure _
  | true =>
    refine (reads_readText _).bind fun s => ?_
    rcases Json.read s with (_ | _ | _) | v
    · exact reads_fail _
    · exact reads_throw _
    · exact reads_throw _
    · cases h : manifestFiles? v with
      | none =>
        simp only [h]
        exact reads_fail _
      | some files =>
        simp only [h]
        exact reads_pure _

theorem readManifest_apply (root : Path) (l : Library) (t : Tree) :
    readManifest root l t = match t.query (manifestPath root l) holds with
      | .error e => (.error (.ofRefusal e), t)
      | .ok false => (.ok [], t)
      | .ok true => match t.contentOf (manifestPath root l) with
        | .error e => (.error (.ofRefusal e), t)
        | .ok content => (filesOf root l content, t) := by
  rw [readManifest, Effect.bind_apply, ask_apply]
  rcases t.query (manifestPath root l) holds with e | _ | _
  · rfl
  · rfl
  · show (readText (manifestPath root l) >>= _) t = _
    rw [Effect.bind_apply, readText, Effect.bind_apply, ask_apply]
    rcases t.contentOf (manifestPath root l) with e | content
    · rfl
    simp only [filesOf]
    rcases Text.Utf8.decode? content with _ | cs
    · rfl
    simp only [Effect.pure_apply]
    rcases Json.read (String.ofList (Text.unifyLineEnds cs)) with (_ | _ | _) | v
    · rfl
    · rfl
    · rfl
    · simp only []
      rcases manifestFiles? v with _ | files <;> rfl

/-- A manifest in the directory of manifests is read off its place. -/
theorem readManifest_of_seat (h : Seat t root R k) (hnull : hasNull root.text = false)
    (hdir : t.get? (R ++ [".manifests"]) = some .dir)
    (hlink : ∀ target, t.get? (R ++ manifestNames l) ≠ some (.link target))
    (hfits : Fits root (manifestNames l)) :
    readManifest root l t = (manifestAt root l (t.get? (R ++ manifestNames l)), t) := by
  have hplain : Plain ([".manifests"] ++ [l.name ++ ".json"]) := plain_manifestNames l
  have hlocate : t.locate (root.within (manifestNames l)) = .ok (R ++ manifestNames l) := by
    rw [h.locate (show manifestNames l ≠ [] from List.cons_ne_nil _ _) hplain hfits]
    exact locateFrom_concat hplain hdir (.inr hlink)
  have hplace : t.place (root.within (manifestNames l)) = .ok (R ++ manifestNames l) :=
    h.placeOr hnull hplain hfits hdir (.inr hlink)
  rw [readManifest_apply, manifestPath_eq, query_eq_ok (by rw [hlocate]; exact nofun), holds, node?,
    contentOf, hlocate, hplace]
  rcases hnode : t.get? (R ++ manifestNames l) with _ | (⟨content, executable⟩ | target | _)
  · simp [hnode, manifestAt]
  · simp [hnode, manifestAt, bind, Except.bind, pure, Except.pure]
  · exact absurd hnode (hlink target)
  · simp [hnode, manifestAt, bind, Except.bind, throw, throwThe, MonadExceptOf.throw,
      Fault.ofRefusal,
      manifestPath_eq]

/-- A manifest whose path is too long is not read. -/
theorem readManifest_of_not_fits (hnull : hasNull root.text = false)
    (hfits : ¬ Fits root (manifestNames l)) :
    ∃ e, readManifest root l t = (.error (.system e), t) := by
  rw [readManifest_apply, manifestPath_eq, query_of_not_fits hnull (plain_manifestNames l) hfits]
  exact ⟨_, rfl⟩

/-! ## Writing -/

/-- The content of a manifest with files. -/
def manifestBytes (l : Library) (files : List String) : List UInt8 :=
  Text.Utf8.bytesOf ((manifestJson l files).indentedText ++ "\n")

theorem recordFiles_apply (root : Path) (l : Library) (files : List String) (t : Tree) :
    recordFiles root l files t = match readManifest root l t with
      | (.error fault, t₁) => (.error fault, t₁)
      | (.ok before, t₁) => match ensureDirs (manifestPath root l).parent t₁ with
        | (.error fault, t₂) => (.error fault, t₂)
        | (.ok (), t₂) =>
          match t₂.writeFile (manifestPath root l) (manifestBytes l (before ++ files)) with
          | .error e => (.error (.ofRefusal e), t₂)
          | .ok t₃ => (.ok (), t₃) := by
  rw [recordFiles, Effect.bind_apply]
  rcases readManifest root l t with ⟨e | before, t₁⟩
  · rfl
  · show (writeManifest root l (before ++ files) >>= _) t₁ = _
    rw [Effect.bind_apply, writeManifest, Effect.bind_apply]
    simp only []
    rcases ensureDirs (manifestPath root l).parent t₁ with ⟨e | _, t₂⟩
    · rfl
    · simp only []
      rw [Effect.bind_apply, writeText, apply_apply, manifestBytes]
      rcases t₂.writeFile (manifestPath root l) _ with e | t₃ <;> rfl

/-- Adding files to a manifest that can be read writes it, or is refused and changes nothing; it is
refused when the path of the manifest is too long or leads to a directory. -/
theorem recordFiles_spec (h : Seat t root R k) (hnull : hasNull root.text = false)
    (hdir : t.get? (R ++ [".manifests"]) = some .dir)
    (hlink : ∀ target, t.get? (R ++ manifestNames l) ≠ some (.link target))
    (hread : ∀ content executable, t.get? (R ++ manifestNames l) = some (.file content executable) →
      ∃ before, filesOf root l content = .ok before) (files : List String) :
    (∃ e, recordFiles root l files t = (.error (.system e), t) ∧
      (¬ Fits root (manifestNames l) ∨ t.get? (R ++ manifestNames l) = some .dir)) ∨
    ∃ before t', Fits root (manifestNames l) ∧
      manifestAt root l (t.get? (R ++ manifestNames l)) = .ok before ∧
      recordFiles root l files t = (.ok (), t') ∧
      Added (R ++ manifestNames l) (.file (manifestBytes l (before ++ files))
        (mayRun (t.get? (R ++ manifestNames l)))) t t' := by
  rw [recordFiles_apply]
  by_cases hfits : Fits root (manifestNames l)
  swap
  · obtain ⟨e, he⟩ := readManifest_of_not_fits (t := t) hnull hfits
    rw [he]
    exact .inl ⟨e, rfl, .inl hfits⟩
  rw [readManifest_of_seat h hnull hdir hlink hfits]
  have hplain : Plain ([".manifests"] ++ [l.name ++ ".json"]) := plain_manifestNames l
  have hready : (t.get? (R ++ manifestNames l) = some .dir ∧
        ∃ e, manifestAt root l (t.get? (R ++ manifestNames l)) = .error (.system e)) ∨
      ∃ before, manifestAt root l (t.get? (R ++ manifestNames l)) = .ok before := by
    rcases hnode : t.get? (R ++ manifestNames l) with _ | (⟨content, executable⟩ | target | _)
    · exact .inr ⟨[], rfl⟩
    · exact .inr (hread content executable hnode)
    · exact absurd hnode (hlink target)
    · exact .inl ⟨rfl, _, rfl⟩
  rcases hready with ⟨hnot, e, he⟩ | ⟨before, hbefore⟩
  · rw [he]
    exact .inl ⟨e, rfl, .inr hnot⟩
  have hparent : (manifestPath root l).parent = root.within ([] ++ [".manifests"]) := by
    rw [manifestPath_eq]
    show (root.within ([".manifests"] ++ [l.name ++ ".json"])).parent = root.within [".manifests"]
    exact Path.parent_within
  have hfits' : Fits root ([] ++ [".manifests"]) :=
    Fits.of_append (show Fits root ([".manifests"] ++ [l.name ++ ".json"]) from hfits)
      (plain_append.1 hplain).2
  have hhere : Plain ([] ++ [".manifests"]) := by
    simp
    decide
  have hthere := h.ensureDirs_of_dir hnull hhere hfits' hdir
  rw [hbefore, hparent]
  simp only [hthere]
  rw [manifestPath_eq]
  rcases h.writeFile hnull hplain hfits hdir hlink (manifestBytes l (before ++ files)) with
    ⟨hnot, he⟩ | ⟨t', ht', hadd⟩
  · have he' :
        t.writeFile (root.within (manifestNames l)) (manifestBytes l (before ++ files)) = _ := he
    rw [he']
    exact .inl ⟨_, rfl, .inr hnot⟩
  · have ht'' :
        t.writeFile (root.within (manifestNames l)) (manifestBytes l (before ++ files)) = _ := ht'
    rw [ht'']
    exact .inr ⟨before, t', hfits, rfl, rfl, hadd⟩

/-! ## Reading what was written -/

theorem mem_sortedSet {f : String} : f ∈ sortedSet files ↔ f ∈ files := by
  rw [sortedSet, List.mem_mergeSort, List.mem_eraseDups]

/-- A manifest with its fields in order. -/
theorem sortFields_manifestJson (l : Library) (files : List String) :
    (manifestJson l files).sortFields =
      .obj [("files", .ofTexts (sortedSet files)), ("library", .str l.name)] := by
  rw [manifestJson, Json.sortFields, Json.sortEachField, Json.sortEachField, Json.sortEachField,
    Json.sortFields_ofTexts, Json.sortFields_str]
  simp [List.mergeSort, List.MergeSort.Internal.splitInTwo]

theorem manifestFiles?_ofTexts (l : Library) (texts : List String) :
    manifestFiles? (.obj [("files", .ofTexts texts), ("library", .str l.name)]) = some texts := by
  unfold manifestFiles?
  show (texts.map Json.str).mapM _ = some texts
  rw [List.mapM_map]
  exact (List.mapM_pure (m := Option) (f := id)).trans (by rw [List.map_id]; rfl)

/-- A manifest lists the files that were written to it. -/
theorem filesOf_manifestBytes (root : Path) (l : Library) (files : List String) :
    filesOf root l (manifestBytes l files) = .ok (sortedSet (sortedSet files)) := by
  have hreadable : Json.Readable Text.numeralDigitLimit Json.depthLimit
      (manifestJson l files).sortFields := by
    rw [sortFields_manifestJson]
    refine .obj (by simp) fun f hf => ?_
    rcases List.mem_cons.1 hf with rfl | hf
    · exact Json.readable_ofTexts _
    · rw [List.mem_singleton.1 hf]
      exact .str _
  have hblank : Json.Blank ['\n'] := fun c hc => .inr (List.mem_singleton.1 hc)
  have htext : (manifestJson l files).indentedText ++ "\n" =
      String.ofList (Json.write .indented 0 (manifestJson l files).sortFields ++ ['\n']) := by
    rw [Json.indentedText, String.ofList_append]
  have hascii : Json.IsAscii (Json.write .indented 0 (manifestJson l files).sortFields ++ ['\n']) :=
    Json.isAscii_append.2 ⟨hreadable.isAscii_write Json.isBlank_indented 0, hblank.isAscii⟩
  rw [filesOf, manifestBytes, htext, Text.Utf8.bytesOf, Text.Utf8.decode?_encode,
    String.toList_ofList]
  simp only [Json.unifyLineEnds_eq hascii, Json.read,
    Json.read_write Json.isBlank_indented hreadable hblank]
  rw [sortFields_manifestJson]
  simp only [manifestFiles?_ofTexts]

end Sysroot.Install

import Sysroot.Journal.Record
import Sysroot.Proofs.Json.Sorting
import Sysroot.Proofs.Tree.Written

/-!
# Exported records

Records are exported one to a line: each line is one JSON text in printable ASCII, so no line break is in
it, and it is read as the record (`Record.lines_readBack`).  A journal without records is exported as one
empty line, and an empty line is no JSON text.
-/

namespace Sysroot.Record

open Sysroot.Tree

variable {l : List Record} {r : Record} {limit depth : Nat} {t t' : Tree} {p : Path}

/-- Whether what a record says besides its texts can be read back. -/
def Readable (limit depth : Nat) (r : Record) : Prop := ∀ e ∈ r.extra, e.Readable limit depth

theorem readable_ofText? (s : Option String) : (Json.ofText? s).Readable limit depth := by
  cases s with
  | none => exact .null
  | some s => exact .str s

theorem Readable.toJson (h : r.Readable limit depth) : r.toJson.Readable limit (depth + 1) := by
  have htexts : ∀ f ∈ [("level", Json.str r.level), ("operation", .str r.operation),
      ("library", .ofText? r.library), ("state", .ofText? r.state), ("tool", .ofText? r.tool),
      ("message", .str r.message)], f.2.Readable limit depth := by
    simp only [List.forall_mem_cons]
    exact ⟨.str _, .str _, readable_ofText? _, readable_ofText? _, readable_ofText? _, .str _, nofun⟩
  refine .obj ?_ (List.forall_mem_append.2 ⟨htexts, fun f hf => ?_⟩)
  · cases r.extra with
    | none => exact (by decide : ["level", "operation", "library", "state", "tool", "message"].Nodup)
    | some e =>
      exact (by decide : ["level", "operation", "library", "state", "tool", "message", "extra"].Nodup)
  · cases hextra : r.extra with
    | none =>
      rw [hextra] at hf
      cases hf
    | some e =>
      rw [hextra] at hf
      rw [List.mem_singleton.1 hf]
      exact h e hextra

/-- Lines that are joined have a line break behind each of them. -/
theorem join_lines {lines : List String} (h : lines ≠ []) :
    Text.join "\n" lines ++ "\n" = String.join (lines.map (· ++ "\n")) := by
  induction lines with
  | nil => exact absurd rfl h
  | cons first lines ih =>
    cases lines with
    | nil =>
      rw [Text.join_singleton, List.map_singleton, String.join_cons, String.join_nil, String.append_empty]
    | cons second lines =>
      rw [Text.join, String.intercalate_cons_cons, List.map_cons, String.join_cons,
        ← ih (List.cons_ne_nil _ _), String.append_assoc]
      rfl

/-- The line of a record is read as the record. -/
theorem Readable.line (h : r.Readable limit depth) :
    (∃ v, Json.readBounded limit (depth + 1) r.toJson.lineText = .ok v ∧ r.toJson.Same v) ∧
      ∀ c ∈ r.toJson.lineText.toList, 0x20 ≤ c.toNat ∧ c.toNat ≤ 0x7E :=
  Json.readBounded_lineText h.toJson

/-- What is exported is printable ASCII and line breaks. -/
theorem isAscii_linesText (h : ∀ r ∈ l, r.Readable limit depth) : Json.IsAscii (linesText l).toList := by
  have hmark : "\n".toList = ['\n'] := rfl
  rw [linesText, String.toList_append, hmark]
  refine Json.isAscii_append.2 ⟨fun c hc => ?_, Json.isAscii_cons.2 ⟨.inl rfl, Json.isAscii_nil⟩⟩
  by_cases hbreak : c = '\n'
  · exact .inl hbreak
  · obtain ⟨line, hline, hc⟩ := (Text.mem_join "\n" '\n' hmark hbreak).1 hc
    obtain ⟨r, hr, rfl⟩ := List.mem_map.1 hline
    exact .inr ((h r hr).line.2 c hc)

/-- What is exported to a file is read from it. -/
theorem readText_of_writeLines (h : ∀ r ∈ l, r.Readable limit depth) (htargets : t.CleanTargets)
    (hhome : t.get? t.home = some .dir) (hp : Path.Spelled p.parts)
    (hwrite : writeLines l p t = (.ok (), t')) : Action.readText p t' = (.ok (linesText l), t') := by
  obtain ⟨_, t₁, hdirs, hwrite⟩ := Effect.bind_ok hwrite
  have hgrown : t.Grown t₁ := by
    have hgrown : t.Grown (Action.ensureDirs p.parent t).2 := Action.ensureDirs_grown
    rwa [hdirs] at hgrown
  refine Action.readText_of_writeText (fun l target hl => ?_) ?_ hp
    (Json.unifyLineEnds_eq (isAscii_linesText h)) hwrite
  · exact htargets l target (hgrown.of_ne_dir hl nofun)
  · rw [hgrown.home]
    exact hgrown.within _ _ hhome

/-- A journal with records is exported as one line for each of them, in their order, and each line is read
as its record; a journal without any is exported as one empty line, which no reader reads.  What is
exported to a file is what the file holds. -/
theorem lines_readBack (l : List Record) (h : ∀ r ∈ l, r.Readable limit depth) :
    (l ≠ [] → ∃ lines, linesText l = String.join (lines.map (· ++ "\n")) ∧
      (∀ line ∈ lines, ∀ c ∈ line.toList, 0x20 ≤ c.toNat ∧ c.toNat ≤ 0x7E) ∧
      List.Forall₂ (fun line r => ∃ v, Json.readBounded limit (depth + 1) line = .ok v ∧ r.toJson.Same v)
        lines l) ∧
    (l = [] → linesText l = String.join ["" ++ "\n"] ∧
      ∀ limit depth, Json.readBounded limit depth "" = .error (.malformed .value 0)) ∧
    (∀ t t' p, t.CleanTargets → t.get? t.home = some .dir → Path.Spelled p.parts →
      writeLines l p t = (.ok (), t') → Action.readText p t' = (.ok (linesText l), t')) := by
  refine ⟨fun hne => ⟨l.map fun r => r.toJson.lineText, ?_, ?_, ?_⟩, ?_, fun t t' p htargets hhome hp =>
    readText_of_writeLines h htargets hhome hp⟩
  · exact join_lines (mt List.map_eq_nil_iff.1 hne)
  · intro line hline
    obtain ⟨r, hr, rfl⟩ := List.mem_map.1 hline
    exact (h r hr).line.2
  · rw [List.forall₂_map_left_iff, List.forall₂_same]
    exact fun r hr => (h r hr).line.1
  · rintro rfl
    exact ⟨rfl, fun _ _ => rfl⟩

theorem lines_readBack_brokenMessage :
    (∃ lines : List String, linesText [{ operation := "build", message := "a\nb\u2028" },
        { operation := "install", message := "", extra := some (.arr [.real "1.5"]) }] =
          String.join (lines.map (· ++ "\n")) ∧ lines.length = 2) ∧
    linesText [] = String.join ["" ++ "\n"] ∧
    ∃ t', writeLines [] (Path.ofText "log.jsonl") Tree.empty = (.ok (), t') ∧
      Action.readText (Path.ofText "log.jsonl") t' = (.ok "\n", t') := by
  have hreal : Json.RealText ([] ++ (['1'] ++ (['.', '5'] ++ []))) :=
    .decimal (.inl rfl) (.inr ⟨⟨List.cons_ne_nil _ _, List.forall_mem_singleton.2 rfl⟩, by decide⟩)
      (.inr ⟨['5'], rfl, List.cons_ne_nil _ _, List.forall_mem_singleton.2 rfl⟩) (.inl rfl)
      (.inl (List.cons_ne_nil _ _))
  have hplain : Readable 0 1 { operation := "build", message := "a\nb\u2028" } := nofun
  have hextra : Readable 0 1 { operation := "install", message := "", extra := some (.arr [.real "1.5"]) } :=
    fun e he => Option.some.inj he ▸ .arr (List.forall_mem_singleton.2 (.real hreal))
  obtain ⟨hlines, -⟩ :=
    lines_readBack _ (List.forall_mem_cons.2 ⟨hplain, List.forall_mem_singleton.2 hextra⟩)
  have hnone : ∀ r ∈ ([] : List Record), r.Readable 0 0 := nofun
  obtain ⟨-, hempty, hfile⟩ := lines_readBack [] hnone
  obtain ⟨lines, htext, -, hread⟩ := hlines (List.cons_ne_nil _ _)
  have hwrite : writeLines [] (Path.ofText "log.jsonl") Tree.empty =
      (.ok (), (writeLines [] (Path.ofText "log.jsonl") Tree.empty).2) := by rfl
  have hclean : Tree.empty.CleanTargets := by
    intro l target hl
    cases l <;> cases hl
  exact ⟨⟨lines, htext, hread.length_eq⟩, (hempty rfl).1, _, hwrite,
    hfile _ _ _ hclean rfl (Path.spelled_parts _) hwrite⟩

end Sysroot.Record

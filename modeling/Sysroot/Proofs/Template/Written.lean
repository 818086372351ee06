import Sysroot.Plan.Basic
import Sysroot.Proofs.Effect

/-!
# Templates that are written

A template is written from texts and names: a text with its braces doubled, a name in braces.  Such a
template is cut into the characters of the texts and the fields of the names again
(`pieces_written`), so it expands to the texts and the values of the names one after the other, and
what a value contains is not read again (`Site.expand_written`).
-/

namespace Sysroot.Template

open Effect

variable {fuel : Nat} {cs rest : List Char} {ps : List Piece} {key : String}
  {values : OrderedMap String String}

/-- What a template is written from. -/
inductive Item where
  | literal (text : String)
  | field (key : String)

/-- A text with its braces doubled. -/
def escape (cs : List Char) : List Char :=
  cs.flatMap fun c => if c = '\x7b' ∨ c = '\x7d' then [c, c] else [c]

/-- How an item is written. -/
def Item.written : Item → List Char
  | literal text => escape text.toList
  | field key => '\x7b' :: key.toList ++ ['\x7d']

/-- What an item stands for. -/
def Item.expansion (values : OrderedMap String String) : Item → String
  | literal text => text
  | field key => (values.find? key).getD ""

/-- The template that is written from items. -/
def written (items : List Item) : String := String.ofList (items.flatMap Item.written)

/-- What the items stand for, one after the other. -/
def expansion (values : OrderedMap String String) (items : List Item) : String :=
  String.ofList (items.flatMap fun item => (item.expansion values).toList)

/-- Whether a text is the name of a field that takes no step: it is not empty, no number, and has no
mark in it that ends a name or goes on from it. -/
def isFieldName (key : String) : Bool :=
  key ≠ "" && key.toList.all (· ∉ ['\x7b', '\x7d', '[', '.', ':', '!']) &&
    match wholeNumber? key.toList with
    | .ok none => true
    | _ => false

theorem ne_nil_of_isFieldName (h : isFieldName key = true) : key.toList ≠ [] := by
  simp only [isFieldName, Bool.and_eq_true, decide_eq_true_eq] at h
  exact fun hnil => h.1.1 (String.toList_eq_nil_iff.1 hnil)

theorem mark_of_isFieldName (h : isFieldName key = true) {c : Char} (hc : c ∈ key.toList) :
    c ∉ ['\x7b', '\x7d', '[', '.', ':', '!'] := by
  simp only [isFieldName, Bool.and_eq_true, List.all_eq_true, decide_eq_true_eq] at h
  exact h.1.2 c hc

theorem wholeNumber?_of_isFieldName (h : isFieldName key = true) :
    wholeNumber? key.toList = .ok none := by
  simp only [isFieldName, Bool.and_eq_true] at h
  have hnumber := h.2
  split at hnumber
  · assumption
  · cases hnumber

/-! ## Cutting what was written -/

/-- Whether a text is cut into pieces, with any fuel that suffices. -/
def Cuts (cs : List Char) (ps : List Piece) : Prop :=
  ∀ fuel, cs.length ≤ fuel → piecesWithin fuel cs = ps

theorem cuts_nil : Cuts [] [] := by
  intro fuel _
  cases fuel <;> rfl

theorem piecesWithin_doubled {c : Char} (h : c = '\x7b' ∨ c = '\x7d') (fuel : Nat) (r : List Char) :
    piecesWithin (fuel + 1) (c :: c :: r) = .literal c :: piecesWithin fuel r := by
  rcases h with rfl | rfl <;> rfl

theorem piecesWithin_plain {c : Char} (h : ¬ (c = '\x7b' ∨ c = '\x7d')) (fuel : Nat) (r : List Char) :
    piecesWithin (fuel + 1) (c :: r) = .literal c :: piecesWithin fuel r := by
  obtain ⟨hopen, hclose⟩ := not_or.1 h
  rw [piecesWithin.eq_def]
  dsimp only
  rw [if_neg hclose, if_neg hopen]

theorem piecesWithin_field {c : Char} {r : List Char} {f : Field} (hopen : c ≠ '\x7b')
    (hread : readField (c :: r) = .ok (f, rest)) (fuel : Nat) :
    piecesWithin (fuel + 1) ('\x7b' :: c :: r) = .field f :: piecesWithin fuel rest := by
  rw [piecesWithin.eq_def]
  dsimp only
  rw [if_neg (by decide), if_pos rfl]
  split
  · next heq => cases heq
  · next heq => exact absurd (List.cons.inj heq).1 hopen
  · rw [hread]

/-- A text with its braces doubled is cut into its characters. -/
theorem Cuts.escape (h : Cuts rest ps) (cs : List Char) :
    Cuts (Template.escape cs ++ rest) (cs.map .literal ++ ps) := by
  induction cs with
  | nil => exact h
  | cons c cs ih =>
    intro fuel hfuel
    rw [Template.escape, List.flatMap_cons, ← Template.escape, List.append_assoc] at hfuel ⊢
    rw [List.map_cons, List.cons_append]
    by_cases hbrace : c = '\x7b' ∨ c = '\x7d'
    · rw [if_pos hbrace] at hfuel ⊢
      obtain ⟨fuel, rfl⟩ : ∃ k, fuel = k + 1 := ⟨fuel - 1, by simp at hfuel; omega⟩
      refine (piecesWithin_doubled hbrace fuel _).trans (congrArg _ (ih fuel ?_))
      simp only [List.cons_append, List.nil_append, List.length_cons] at hfuel
      omega
    · rw [if_neg hbrace] at hfuel ⊢
      obtain ⟨fuel, rfl⟩ : ∃ k, fuel = k + 1 := ⟨fuel - 1, by simp at hfuel; omega⟩
      refine (piecesWithin_plain hbrace fuel _).trans (congrArg _ (ih fuel ?_))
      simp only [List.cons_append, List.nil_append, List.length_cons] at hfuel
      omega

/-- A name without marks is read up to the brace that closes it. -/
theorem readName_of_unmarked (h : ∀ c ∈ cs, c ∉ ['\x7b', '\x7d', '[', '.', ':', '!']) :
    readName false (cs ++ '\x7d' :: rest) = .ok (cs, '\x7d', rest) := by
  induction cs with
  | nil => rfl
  | cons c cs ih =>
    have hc := h c List.mem_cons_self
    simp only [List.mem_cons, List.not_mem_nil, or_false, not_or] at hc
    obtain ⟨hopen, hclose, hbracket, -, hcolon, hmark⟩ := hc
    have hsame : (c == '[') = false := beq_eq_false_iff_ne.2 hbracket
    rw [List.cons_append, readName, if_neg Bool.false_ne_true, if_neg hopen,
      if_neg (by simp only [hclose, hcolon, hmark, or_self, not_false_eq_true]), hsame,
      ih fun c' hc' => h c' (List.mem_cons_of_mem c hc')]
    rfl

/-- A name in braces is cut into its field. -/
theorem Cuts.field (h : Cuts rest ps) (hkey : isFieldName key = true) :
    Cuts ('\x7b' :: key.toList ++ '\x7d' :: rest) (.field ⟨key.toList, none, []⟩ :: ps) := by
  intro fuel hfuel
  have hmarks := fun c (hc : c ∈ key.toList) => mark_of_isFieldName hkey hc
  have hread : readField (key.toList ++ '\x7d' :: rest) = .ok (⟨key.toList, none, []⟩, rest) := by
    rw [readField, readName_of_unmarked hmarks]
    rfl
  obtain ⟨c, name, hname⟩ := List.exists_cons_of_ne_nil (ne_nil_of_isFieldName hkey)
  have hopen : c ≠ '\x7b' := by
    rintro rfl
    exact hmarks _ (hname ▸ List.mem_cons_self) List.mem_cons_self
  rw [List.cons_append, List.length_cons, List.length_append, List.length_cons] at hfuel
  obtain ⟨fuel, rfl⟩ : ∃ k, fuel = k + 1 := ⟨fuel - 1, by omega⟩
  rw [List.cons_append]
  rw [hname, List.cons_append] at hread ⊢
  rw [piecesWithin_field hopen hread fuel, h fuel (by omega)]

/-- The pieces of an item. -/
def Item.pieces : Item → List Piece
  | literal text => text.toList.map .literal
  | field key => [.field ⟨key.toList, none, []⟩]

/-- A template is cut into the pieces of the items that it is written from. -/
theorem pieces_written {items : List Item}
    (h : ∀ key, Item.field key ∈ items → isFieldName key = true) :
    pieces (items.flatMap Item.written) = items.flatMap Item.pieces := by
  have hcuts : Cuts (items.flatMap Item.written) (items.flatMap Item.pieces) := by
    induction items with
    | nil => exact cuts_nil
    | cons item items ih =>
      have hrest := ih fun key hkey => h key (List.mem_cons_of_mem item hkey)
      rw [List.flatMap_cons, List.flatMap_cons]
      cases item with
      | literal text => exact hrest.escape text.toList
      | field key =>
        rw [Item.written, List.append_assoc]
        exact hrest.field (h key List.mem_cons_self)
  exact hcuts _ (Nat.le_refl _)

/-! ## Expanding what was written -/

/-- A name that takes no step stands for its value. -/
theorem resolve_of_isFieldName {value : String} (hkey : isFieldName key = true)
    (hvalue : values.find? key = some value) :
    resolve values key.toList = .ok (.text value.toList) := by
  have hfirst : firstName key.toList = key.toList := by
    refine List.takeWhile_eq_self_iff.2 fun c hc => decide_eq_true ?_
    have hmarks := mark_of_isFieldName hkey hc
    exact ⟨fun h => hmarks (by simp [h]), fun h => hmarks (by simp [h])⟩
  have hsteps : ∀ fuel part, takeSteps fuel part [] = .ok part := by
    intro fuel part
    cases fuel <;> rfl
  rw [resolve, hfirst, wholeNumber?_of_isFieldName hkey, except_ok_bind,
    if_neg (by simp [ne_nil_of_isFieldName hkey]), String.ofList_toList, hvalue, List.drop_length]
  exact hsteps _ _

/-- What a piece of an item stands for. -/
def Piece.expansion (values : OrderedMap String String) : Piece → List Char
  | .literal c => [c]
  | .field f => ((values.find? (String.ofList f.name)).getD "").toList
  | .fault _ => []

/-- The pieces of items stand for what the items stand for. -/
theorem flatten_map_expansion (values : OrderedMap String String) (items : List Item) :
    ((items.flatMap Item.pieces).map (Piece.expansion values)).flatten =
      items.flatMap fun item => (item.expansion values).toList := by
  rw [List.map_flatMap, List.flatten_eq_flatMap, List.flatMap_assoc]
  refine List.flatMap_congr fun item _ => ?_
  cases item with
  | literal text =>
    rw [Item.pieces, Item.expansion, List.map_map, List.flatMap_map]
    exact List.flatMap_singleton' text.toList
  | field key =>
    rw [Item.pieces, Item.expansion, List.map_singleton, List.flatMap_singleton]
    show ((values.find? (String.ofList key.toList)).getD "").toList = _
    rw [String.ofList_toList]

/-- A template whose names have values expands to what the items stand for that it is written
from. -/
theorem expand_of_items {items : List Item} (h : ∀ key, Item.field key ∈ items →
    values.contains key = true ∧ isFieldName key = true) :
    expand values (written items) = .ok (expansion values items) := by
  rw [expand, written, String.toList_ofList, expandWithin,
    pieces_written fun key hkey => (h key hkey).2,
    except_mapM_of_ok (g := Piece.expansion values) fun piece hpiece => ?_, except_ok_bind,
    flatten_map_expansion]
  · rfl
  · obtain ⟨item, hitem, hpiece⟩ := List.mem_flatMap.1 hpiece
    cases item with
    | literal text =>
      obtain ⟨c, -, rfl⟩ := List.mem_map.1 hpiece
      rfl
    | field key =>
      obtain ⟨hsome, hname⟩ := h key hitem
      obtain ⟨value, hvalue⟩ := Option.isSome_iff_exists.1 hsome
      obtain rfl := List.mem_singleton.1 hpiece
      dsimp only
      rw [resolve_of_isFieldName hname hvalue, Piece.expansion, String.ofList_toList, hvalue]
      rfl

end Sysroot.Template

namespace Sysroot.Site

open Template

/-- The names that the catalog's templates may use are names of fields that take no step. -/
theorem isFieldName_of_mem_placeholders {s : Site} {e : Catalog.Entry} {key : String}
    (h : key ∈ (s.placeholders e).keys) : isFieldName key = true := by
  have hkeys : (s.placeholders e).keys = ["sysroot", "include", "lib", "source", "sources", "stage",
    "target", "arch", "llvm_src", "cc", "ar", "cflags", "ldflags"] := rfl
  have hall : ∀ key ∈ ["sysroot", "include", "lib", "source", "sources", "stage", "target", "arch",
    "llvm_src", "cc", "ar", "cflags", "ldflags"], isFieldName key = true := by decide +kernel
  exact hall key (hkeys ▸ h)

/-- A template that is written from texts, with their braces doubled, and from names in braces expands
to the texts and the values of the names one after the other, whatever these contain, when the names
are placeholders of a site, or others that take no step.  In particular a text with its braces doubled
expands to the text. -/
theorem expand_written (s : Site) (e : Catalog.Entry) (values : OrderedMap String String)
    (items : List Item) (h : ∀ key, Item.field key ∈ items → values.contains key = true ∧
      (key ∈ (s.placeholders e).keys ∨ isFieldName key = true)) :
    expand values (written items) = .ok (expansion values items) ∧
    ∀ text : String, expand values (String.ofList (escape text.toList)) = .ok text := by
  have hexpand : ∀ items : List Item, (∀ key, Item.field key ∈ items →
      values.contains key = true ∧ isFieldName key = true) →
      expand values (written items) = .ok (expansion values items) := fun items hitems => by
    rw [expand, expand_of_items hitems]
  refine ⟨hexpand items fun key hkey => ?_, fun text => ?_⟩
  · obtain ⟨hvalue, hname⟩ := h key hkey
    exact ⟨hvalue, hname.elim isFieldName_of_mem_placeholders id⟩
  · have hone := hexpand [.literal text] fun key hkey => by simp at hkey
    simpa [written, expansion, Item.written, Item.expansion] using hone

/-- Sources whose directory has braces in its name. -/
def bracedSources : Site where
  settings :=
    { sourcesDir := ⟨.root, ["\x7bcc\x7d\x7d"]⟩, buildRoot := ⟨.root, ["b"]⟩, sysrootDir := ⟨.root, ["s"]⟩ }
  toolchain :=
    { triple := ⟨"wasm32", "unknown", "unknown", none⟩, compiler := ⟨.root, ["cc"]⟩,
      linker := ⟨.root, ["ld"]⟩, archiver := ⟨.root, ["ar"]⟩ }
  root := ⟨.root, ["s"]⟩

/-- An entry in whose templates `bracedSources` puts its texts. -/
def bracedEntry : Catalog.Entry :=
  { library := .compat, role := "", kind := .native, source := "src" }

/-- Fields right behind one another and beside doubled braces. -/
def bracedItems : List Item :=
  [.literal "\x7d\x7b", .field "sources", .field "cc", .literal "\x7b\x7d"]

theorem expand_written_bracedSources :
    (∀ key, Item.field key ∈ bracedItems →
      (bracedSources.placeholders bracedEntry).contains key = true ∧
        (key ∈ (bracedSources.placeholders bracedEntry).keys ∨ isFieldName key = true)) ∧
    written bracedItems = "\x7d\x7d\x7b\x7b\x7bsources\x7d\x7bcc\x7d\x7b\x7b\x7d\x7d" ∧
    expand (bracedSources.placeholders bracedEntry) (written bracedItems) =
      .ok "\x7d\x7b/\x7bcc\x7d\x7d/cc\x7b\x7d" := by
  have hkeys : ∀ key, Item.field key ∈ bracedItems →
      (bracedSources.placeholders bracedEntry).contains key = true ∧
        (key ∈ (bracedSources.placeholders bracedEntry).keys ∨ isFieldName key = true) := by
    intro key hkey
    simp only [bracedItems, List.mem_cons, reduceCtorEq, Item.field.injEq, List.not_mem_nil, or_false,
      false_or] at hkey
    rcases hkey with rfl | rfl <;> exact ⟨by decide +kernel, .inl (by decide +kernel)⟩
  refine ⟨hkeys, by decide +kernel, ?_⟩
  rw [(expand_written bracedSources bracedEntry _ bracedItems hkeys).1]
  exact congrArg _ (by decide +kernel)

end Sysroot.Site

import Sysroot.Proofs.Effect
import Sysroot.Proofs.Text.Blank
import Sysroot.Proofs.Text.Lines
import Sysroot.Triple

/-!
# Triples and their texts

A triple is well formed when its architecture is a known one and its other components are made of the
characters that a component may have.  The texts that are read as a well-formed triple are its own text
with blanks around it, and no text is read as any other triple (`Triple.read_eq_ok_iff`).  So reading is
the inverse of writing, and it accepts the texts of three or four components and no others
(`Triple.read_exact`).

Neither a blank nor a hyphen is a character of a component: that is what makes dropping the blanks and
splitting at the hyphens find the components again.
-/

namespace Sysroot.Triple

open Effect Text

variable {c : Char} {s text : String} {t : Triple} {components : List String}

/-! ## Components -/

/-- Whether a text is a component: it is not empty, and its characters are ASCII letters, ASCII digits,
low lines and dots. -/
def IsComponent (s : String) : Prop :=
  s ≠ "" ∧ ∀ c ∈ s.toList, c.isAlphanum = true ∨ c = '_' ∨ c = '.'

theorem isComponentChar_iff : isComponentChar c = true ↔ c.isAlphanum = true ∨ c = '_' ∨ c = '.' := by
  simp only [isComponentChar, Char.isAlphanum, Char.isAlpha, Char.isUpper, Char.isLower, Char.isDigit,
    Char.le_def, Bool.or_eq_true, Bool.and_eq_true, decide_eq_true_eq]
  tauto

theorem isComponent_iff : isComponent s = true ↔ IsComponent s := by
  simp only [isComponent, IsComponent, Bool.and_eq_true, decide_eq_true_eq, List.all_eq_true,
    isComponentChar_iff]

/-- The characters of components are ASCII and come after the hyphen. -/
theorem toNat_of_isComponentChar (h : isComponentChar c = true) :
    '-'.toNat < c.toNat ∧ c.toNat < 0x7F := by
  simp only [isComponentChar, Char.le_def, UInt32.le_iff_toNat_le, Bool.or_eq_true, Bool.and_eq_true,
    decide_eq_true_eq] at h
  rcases h with (((⟨hlow, hhigh⟩ | ⟨hlow, hhigh⟩) | ⟨hlow, hhigh⟩) | rfl) | rfl
  · exact ⟨Nat.lt_of_lt_of_le (by decide) hlow, Nat.lt_of_le_of_lt hhigh (by decide)⟩
  · exact ⟨Nat.lt_of_lt_of_le (by decide) hlow, Nat.lt_of_le_of_lt hhigh (by decide)⟩
  · exact ⟨Nat.lt_of_lt_of_le (by decide) hlow, Nat.lt_of_le_of_lt hhigh (by decide)⟩
  · decide
  · decide

theorem IsComponent.toNat (h : IsComponent s) (hc : c ∈ s.toList) :
    '-'.toNat < c.toNat ∧ c.toNat < 0x7F :=
  toNat_of_isComponentChar (isComponentChar_iff.2 (h.2 c hc))

theorem IsComponent.hyphen_not_mem (h : IsComponent s) : '-' ∉ s.toList := fun hmem =>
  Nat.lt_irrefl _ (h.toNat hmem).1

/-- The blanks in ASCII come before the hyphen. -/
theorem isBlank_of_ascii (hlow : '-'.toNat ≤ c.toNat) (hhigh : c.toNat < 0x7F) : isBlank c = false := by
  have hhyphen : '-'.toNat = 0x2D := rfl
  simp only [isBlank, Bool.or_eq_false_iff, Bool.and_eq_false_iff, decide_eq_false_iff_not,
    beq_eq_false_iff_ne]
  omega

/-! ## The texts of triples -/

/-- The components of a triple. -/
def parts (t : Triple) : List String :=
  t.architecture :: t.vendor :: t.system :: t.environment.toList

/-- Whether the architecture of a triple is a known one and the others are components. -/
structure WellFormed (t : Triple) : Prop where
  architecture : ∃ a ∈ architectures, a.name = t.architecture
  vendor : IsComponent t.vendor
  system : IsComponent t.system
  environment : ∀ e ∈ t.environment, IsComponent e

theorem isComponent_architecture {a : Architecture} (h : a ∈ architectures) : IsComponent a.name := by
  have hall : ∀ a ∈ architectures, isComponent a.name = true := by decide
  exact isComponent_iff.1 (hall a h)

theorem wellFormed_iff : t.WellFormed ↔
    (∃ a ∈ architectures, a.name = t.architecture) ∧ ∀ part ∈ t.parts, IsComponent part := by
  simp only [parts, List.forall_mem_cons, Option.mem_toList]
  constructor
  · rintro ⟨⟨a, ha, harchitecture⟩, hvendor, hsystem, henvironment⟩
    exact ⟨⟨a, ha, harchitecture⟩, harchitecture ▸ isComponent_architecture ha, hvendor, hsystem,
      henvironment⟩
  · rintro ⟨harchitecture, -, hvendor, hsystem, henvironment⟩
    exact ⟨harchitecture, hvendor, hsystem, henvironment⟩

/-- The text of a well-formed triple has all its components in it. -/
theorem WellFormed.text_eq (h : t.WellFormed) : t.text = join "-" t.parts := by
  obtain ⟨architecture, vendor, system, environment⟩ := t
  cases environment with
  | none => rfl
  | some e =>
    have he : e ≠ "" := (h.environment e rfl).1
    rw [Triple.text]
    split
    · next heq => cases heq
    · next heq => exact absurd (Option.some.inj heq) he
    · next heq =>
      cases heq
      rfl

/-- There is no blank in what components are joined to by hyphens. -/
theorem not_blank_join (h : ∀ part ∈ components, IsComponent part) :
    ∀ c ∈ (join "-" components).toList, isBlank c = false := by
  intro c hc
  by_cases hhyphen : c = '-'
  · exact hhyphen ▸ by decide
  · obtain ⟨part, hpart, hmem⟩ := (mem_join "-" '-' rfl hhyphen).1 hc
    obtain ⟨hlow, hhigh⟩ := (h part hpart).toNat hmem
    exact isBlank_of_ascii hlow.le hhigh

/-! ## Reading -/

theorem ofParts?_eq_some_iff : ofParts? components = some t ↔ components = t.parts := by
  obtain ⟨architecture, vendor, system, environment⟩ := t
  constructor
  · intro h
    unfold ofParts? at h
    split at h <;> cases h <;> rfl
  · rintro rfl
    cases environment <;> rfl

theorem isSome_architecture? : (architecture? s).isSome = true ↔ ∃ a ∈ architectures, a.name = s := by
  simp only [architecture?, List.find?_isSome, decide_eq_true_eq]

/-- A text is read as a triple when its parts between hyphens are the components of that triple. -/
theorem read_eq_ok_iff_split : read text = .ok t ↔
    split '-' (strip text) = t.parts ∧ t.WellFormed := by
  rw [← ofParts?_eq_some_iff, wellFormed_iff, read]
  cases hparts : ofParts? (split '-' (strip text)) with
  | none => exact ⟨nofun, fun h => absurd h.1 (Option.some_ne_none t).symm⟩
  | some t' =>
    have hall : (split '-' (strip text)).all isComponent = true ↔
        ∀ part ∈ t'.parts, IsComponent part := by
      rw [ofParts?_eq_some_iff.1 hparts, List.all_eq_true]
      exact forall₂_congr fun part _ => isComponent_iff
    constructor
    · intro h
      dsimp only at h
      split at h
      · cases h
      next hcomponents =>
      split at h
      · cases h
      next hknown =>
      cases h
      refine ⟨rfl, isSome_architecture?.1 (Option.isSome_iff_ne_none.2 ?_), hall.1 ?_⟩
      · rwa [Option.isNone_iff_eq_none] at hknown
      · simpa using hcomponents
    · rintro ⟨heq, hknown, hcomponents⟩
      cases heq
      dsimp only
      rw [hall.2 hcomponents, if_neg (by decide), if_neg]
      rw [Option.isNone_iff_eq_none]
      exact Option.isSome_iff_ne_none.1 (isSome_architecture?.2 hknown)

/-- A text is read as a triple when that triple is well formed and the text is its text with blanks
around it. -/
theorem read_eq_ok_iff : read text = .ok t ↔ t.WellFormed ∧ strip text = t.text := by
  rw [read_eq_ok_iff_split, split_eq_iff (show "-".toList = ['-'] from rfl)]
  constructor
  · rintro ⟨⟨-, -, hjoin⟩, hwell⟩
    exact ⟨hwell, by rw [hwell.text_eq, hjoin]⟩
  · rintro ⟨hwell, hstrip⟩
    refine ⟨⟨List.cons_ne_nil _ _, fun part hpart => ?_, by rw [hstrip, hwell.text_eq]⟩, hwell⟩
    exact ((wellFormed_iff.1 hwell).2 part hpart).hyphen_not_mem

/-- What is not read is refused with a cause that a report shows as an error in the settings. -/
theorem failsBy_read (text : String) :
    FailsBy (fun cause => cause.diagnostic.category = .configuration) (read text) := by
  rw [read]
  split
  · exact failsBy_error rfl
  · split
    · exact failsBy_error rfl
    · split
      · exact failsBy_error rfl
      · exact failsBy_ok _

/-- A text is read as a triple exactly when, without the blanks around it, it is three or four components
joined by hyphens of which the first is a known architecture.  The text of that triple is then the text
without the blanks, which is read as the same triple.  Every other text is refused, and every well-formed
triple is read from its text. -/
theorem read_exact :
    (∀ text, (∃ t, read text = .ok t) ↔ ∃ components : List String,
      (components.length = 3 ∨ components.length = 4) ∧ (∀ part ∈ components, IsComponent part) ∧
        (∃ a ∈ architectures, components.head? = some a.name) ∧ Padded (join "-" components) text) ∧
    (∀ text t, read text = .ok t → t.text = strip text ∧ read t.text = .ok t) ∧
    (∀ text, (¬ ∃ t, read text = .ok t) → ∃ cause, read text = .error cause ∧
      cause.diagnostic.category = .configuration) ∧
    ∀ t : Triple, t.WellFormed → read t.text = .ok t := by
  have hprinted : ∀ t : Triple, t.WellFormed → read t.text = .ok t := fun t hwell => by
    refine read_eq_ok_iff.2 ⟨hwell, strip_of_no_blank ?_⟩
    rw [hwell.text_eq]
    exact not_blank_join (wellFormed_iff.1 hwell).2
  refine ⟨fun text => ⟨?_, ?_⟩, fun text t h => ?_, fun text h => ?_, hprinted⟩
  · rintro ⟨t, h⟩
    obtain ⟨hwell, hstrip⟩ := read_eq_ok_iff.1 h
    obtain ⟨⟨a, ha, hname⟩, hparts⟩ := wellFormed_iff.1 hwell
    rw [hwell.text_eq] at hstrip
    refine ⟨t.parts, ?_, hparts, ⟨a, ha, congrArg some hname.symm⟩, (strip_eq_iff.1 hstrip).2⟩
    cases ht : t.environment <;> simp [parts, ht]
  · rintro ⟨components, hlength, hparts, ⟨a, ha, hhead⟩, hpadded⟩
    obtain ⟨t, ht⟩ : ∃ t, ofParts? components = some t := by
      obtain hlength | hlength := hlength
      · obtain ⟨x, y, z, rfl⟩ := List.length_eq_three.1 hlength
        exact ⟨_, rfl⟩
      · obtain ⟨w, x, y, z, rfl⟩ := List.length_eq_four.1 hlength
        exact ⟨_, rfl⟩
    obtain rfl := ofParts?_eq_some_iff.1 ht
    have hwell : t.WellFormed := wellFormed_iff.2 ⟨⟨a, ha, (Option.some.inj hhead).symm⟩, hparts⟩
    refine ⟨t, read_eq_ok_iff.2 ⟨hwell, ?_⟩⟩
    rw [hwell.text_eq]
    exact (strip_eq_iff_padded (not_blank_join hparts)).2 hpadded
  · obtain ⟨hwell, hstrip⟩ := read_eq_ok_iff.1 h
    exact ⟨hstrip.symm, hprinted t hwell⟩
  · cases hread : read text with
    | ok t => exact absurd ⟨t, hread⟩ h
    | error cause => exact ⟨cause, rfl, failsBy_read text cause hread⟩

/-- A triple of four components. -/
def previewTriple : Triple := ⟨"wasm32", "unknown", "wasi", some "preview_1.0"⟩

theorem read_exact_previewTriple :
    read "\u2003wasm32-unknown-wasi-preview_1.0\n" = .ok previewTriple ∧
    previewTriple.text = strip "\u2003wasm32-unknown-wasi-preview_1.0\n" ∧
    (¬ ∃ t, read "wasm32-unknown\n-wasi" = .ok t) ∧
    (∃ cause, read "wasm32-unknown\n-wasi" = .error cause ∧
      cause.diagnostic.category = .configuration) ∧
    previewTriple.WellFormed ∧ read previewTriple.text = .ok previewTriple := by
  have hread : read "\u2003wasm32-unknown-wasi-preview_1.0\n" = .ok previewTriple := rfl
  have hbroken : ¬ ∃ t, read "wasm32-unknown\n-wasi" = .ok t := by
    rintro ⟨t, ht⟩
    cases (show read "wasm32-unknown\n-wasi" = .error (.malformedTriple _) from rfl).symm.trans ht
  have hwell : previewTriple.WellFormed := (read_eq_ok_iff.1 hread).1
  exact ⟨hread, (read_exact.2.1 _ _ hread).1, hbroken, read_exact.2.2.1 _ hbroken, hwell,
    read_exact.2.2.2 _ hwell⟩

end Sysroot.Triple

import Jarsmith.Configuration.Validation
import Jarsmith.Proofs.Configuration.OutputName
import Jarsmith.Proofs.Text.Scalar

/-!
# What validation ensures of texts

A check that passes did so in all its parts (`Checked.seq_eq_valid`, `Checked.andThen_eq_valid`), so
that what it gives is told by what the checks of the fields give. The texts of a configuration have
no surrogates, and so neither have the names of its outputs (`isScalar_outputName`).
-/

namespace Jarsmith

/-! ### Checks that pass -/

namespace Checked

variable {α β : Type} {x : Checked α} {f : Checked (α → β)} {b : β}

theorem map_eq_valid {g : α → β} : x.map g = .valid b ↔ ∃ a, x = .valid a ∧ g a = b := by
  cases x <;> simp [map]

theorem seq_eq_valid : f <*> x = .valid b ↔ ∃ g a, f = .valid g ∧ x = .valid a ∧ g a = b := by
  show apply f x = .valid b ↔ _
  cases f <;> cases x <;> simp [apply]

theorem andThen_eq_valid {g : α → Checked β} :
    x.andThen g = .valid b ↔ ∃ a, x = .valid a ∧ g a = .valid b := by
  cases x <;> simp [andThen]

theorem under_eq_valid {step : Step} {a : α} : x.under step = .valid a ↔ x = .valid a := by
  cases x <;> simp [under]

theorem wrong_ne_valid {v : Violation} {d : Document} {a : α} :
    (wrong v d : Checked α) ≠ .valid a := by
  simp [wrong]

/-- A value passes with a rule on it if it passes without and the rule holds. -/
theorem guard_eq_valid {p : α → Prop} [DecidablePred p] {violation : α → Violation}
    {d : Document} {a : α} :
    (x.andThen fun a => if p a then wrong (violation a) d else valid a) = .valid a ↔
      x = .valid a ∧ ¬ p a := by
  rw [andThen_eq_valid]
  constructor
  · rintro ⟨b, rfl, h⟩
    split at h
    · exact absurd h wrong_ne_valid
    · next hp =>
      obtain rfl := valid.inj h
      exact ⟨rfl, hp⟩
  · rintro ⟨rfl, hp⟩
    exact ⟨a, rfl, if_neg hp⟩

theorem forall₂_of_items {check : Document → Checked α} {first : Nat} {ds : List Document}
    {as : List α} (h : items check first ds = .valid as) :
    List.Forall₂ (fun d a => check d = .valid a) ds as := by
  induction ds generalizing first as with
  | nil =>
    obtain rfl : [] = as := by simpa [items] using h
    exact .nil
  | cons d ds ih =>
    obtain ⟨g, rest, hg, hrest, rfl⟩ := seq_eq_valid.1 h
    obtain ⟨a, ha, rfl⟩ := map_eq_valid.1 hg
    exact .cons (under_eq_valid.1 ha) (ih hrest)

end Checked

open Checked

variable {α : Type} {a : α} {d : Document} {r : Record} {field part : Text} {fields : List Text}
  {check : Document → Checked α}

/-- The value of a field, under the spelling that counts. -/
def Record.value? (r : Record) (field : Text) : Option Document := (r.given? field).map Prod.snd

theorem Record.exists_value_of_required (h : r.required field check = .valid a) :
    ∃ d, r.value? field = some d ∧ check d = .valid a := by
  unfold required at h
  unfold value?
  split at h
  · next spelling d hgiven => exact ⟨d, by rw [hgiven]; rfl, under_eq_valid.1 h⟩
  · exact absurd (under_eq_valid.1 h) wrong_ne_valid

theorem Record.value_of_optional {ifMissing : α}
    (h : r.optional field ifMissing check = .valid a) :
    (r.value? field = none ∧ ifMissing = a) ∨
      ∃ d, r.value? field = some d ∧ check d = .valid a := by
  unfold optional at h
  unfold value?
  split at h
  · next spelling d hgiven => exact .inr ⟨d, by rw [hgiven]; rfl, under_eq_valid.1 h⟩
  · next hgiven => exact .inl ⟨by rw [hgiven]; rfl, valid.inj h⟩

theorem Record.exists_of_required (h : r.required field check = .valid a) :
    ∃ d, check d = .valid a := by
  obtain ⟨d, -, hd⟩ := exists_value_of_required h
  exact ⟨d, hd⟩

theorem Record.exists_of_optional {ifMissing : α}
    (h : r.optional field ifMissing check = .valid a) :
    ifMissing = a ∨ ∃ d, check d = .valid a := by
  obtain ⟨-, hmissing⟩ | ⟨d, -, hd⟩ := value_of_optional h
  · exact .inl hmissing
  · exact .inr ⟨d, hd⟩

theorem Document.exists_record_of_checkRecord {checkFields : Record → Checked α}
    (h : d.checkRecord part fields checkFields = .valid a) :
    ∃ r : Record, d = r.whole ∧ checkFields r = .valid a := by
  unfold checkRecord at h
  split at h
  · next entries =>
    refine ⟨⟨entries⟩, rfl, ?_⟩
    unfold Record.complete at h
    dsimp only at h
    split at h
    · exact h
    · simp at h
  · exact absurd h wrong_ne_valid

theorem Document.exists_of_checkRecord {checkFields : Record → Checked α}
    (h : d.checkRecord part fields checkFields = .valid a) : ∃ r, checkFields r = .valid a := by
  obtain ⟨r, -, hr⟩ := exists_record_of_checkRecord h
  exact ⟨r, hr⟩

theorem Document.exists_of_checkListOf {as : List α} (h : d.checkListOf check = .valid as) :
    ∀ a ∈ as, ∃ d, check d = .valid a := by
  obtain ⟨ds, -, hitems⟩ := andThen_eq_valid.1 h
  have hall := forall₂_of_items hitems
  clear h hitems
  induction hall with
  | nil => simp
  | cons hfirst _ ih => exact List.forall_mem_cons.2 ⟨⟨_, hfirst⟩, ih⟩

theorem Document.checkSomeOf_eq_valid_iff {as : List α} :
    d.checkSomeOf check = .valid as ↔ d.checkListOf check = .valid as ∧ as ≠ [] := by
  unfold checkSomeOf
  rw [guard_eq_valid, List.isEmpty_iff]

theorem Document.exists_of_checkOption {a? : Option α}
    (h : d.checkOption check = .valid a?) : ∀ a ∈ a?, ∃ d, check d = .valid a := by
  unfold checkOption at h
  split at h
  · obtain rfl := valid.inj h
    simp
  · obtain ⟨a, ha, rfl⟩ := map_eq_valid.1 h
    simp only [Option.mem_def, Option.some.injEq]
    rintro _ rfl
    exact ⟨_, ha⟩

/-! ### Texts -/

theorem Document.isScalar_of_asText? {t : Text} (h : d.asText? = some (.valid t)) :
    t.IsScalar := by
  unfold asText? at h
  split at h
  · next t =>
    have h := Option.some.inj h
    split at h
    · exact absurd h wrong_ne_valid
    · next hany =>
      obtain rfl := valid.inj h
      exact Text.any_isSurrogate_eq_false_iff.1 (Bool.eq_false_iff.2 hany)
  · next b =>
    have h := Option.some.inj h
    split at h
    · next t ht =>
      obtain rfl := valid.inj h
      exact Utf8.isScalar_of_decode ht
    · exact absurd h wrong_ne_valid
  · simp at h

/-- A text is read without the white space at its ends. -/
theorem Document.exists_of_checkText {t : Text} (h : d.checkText = .valid t) :
    ∃ u, d.asText? = some (.valid u) ∧ u.trimWhiteSpace = t := by
  unfold checkText at h
  split at h
  · next x hx =>
    obtain ⟨u, rfl, rfl⟩ := map_eq_valid.1 h
    exact ⟨u, hx, rfl⟩
  · exact absurd h wrong_ne_valid

theorem Document.isScalar_of_checkText {t : Text} (h : d.checkText = .valid t) : t.IsScalar := by
  obtain ⟨u, hu, rfl⟩ := exists_of_checkText h
  exact Text.isScalar_trim _ (isScalar_of_asText? hu)

/-- A path is read off a text without the white space at its ends. -/
theorem Document.exists_of_checkPath {p : Path} (h : d.checkPath = .valid p) :
    ∃ u, d.asText? = some (.valid u) ∧ Path.ofText u.trimWhiteSpace = p := by
  unfold checkPath at h
  split at h
  · next t ht =>
    obtain ⟨u, hu, rfl⟩ := exists_of_checkText ht
    exact ⟨u, hu, valid.inj h⟩
  · exact absurd h wrong_ne_valid

theorem Document.isScalar_of_checkName {t : Text} (h : d.checkName = .valid t) : t.IsScalar :=
  isScalar_of_checkText (guard_eq_valid.1 h).1

theorem isScalar_of_checkIdentifier {t : Text} (h : checkIdentifier d = .valid t) :
    t.IsScalar :=
  Document.isScalar_of_checkName (guard_eq_valid.1 h).1

/-! ### Artifacts and configurations -/

/-- No text of the name of an output has a surrogate. -/
structure Artifact.IsScalar (a : Artifact) : Prop where
  artifactId : a.artifactId.IsScalar
  version : a.version.IsScalar

/-- An artifact is read off a mapping whose fields pass their checks. -/
theorem Artifact.exists_record_of_ofDocument {a : Artifact} (h : ofDocument d = .valid a) :
    ∃ r : Record, d = r.whole ∧
      r.required "group_id" checkIdentifier = .valid a.groupId ∧
      r.required "artifact_id" checkIdentifier = .valid a.artifactId ∧
      r.required "version" Document.checkName = .valid a.version ∧
      r.optional "type" archiveType Document.checkText = .valid a.type ∧
      r.required "file" Document.checkPath = .valid a.file := by
  obtain ⟨r, hwhole, h₀⟩ := Document.exists_record_of_checkRecord h
  obtain ⟨g₁, file, h₁, hfile, rfl⟩ := seq_eq_valid.1 h₀
  obtain ⟨g₂, type, h₂, htype, rfl⟩ := seq_eq_valid.1 h₁
  obtain ⟨g₃, version, h₃, hversion, rfl⟩ := seq_eq_valid.1 h₂
  obtain ⟨g₄, artifactId, h₄, hartifact, rfl⟩ := seq_eq_valid.1 h₃
  obtain ⟨groupId, hgroup, rfl⟩ := map_eq_valid.1 h₄
  exact ⟨r, hwhole, hgroup, hartifact, hversion, htype, hfile⟩

theorem Artifact.isScalar_of_ofDocument {a : Artifact} (h : ofDocument d = .valid a) :
    a.IsScalar := by
  obtain ⟨r, -, -, hid, hversion, -⟩ := exists_record_of_ofDocument h
  obtain ⟨d₁, hversion⟩ := Record.exists_of_required hversion
  obtain ⟨d₂, hid⟩ := Record.exists_of_required hid
  exact ⟨isScalar_of_checkIdentifier hid, Document.isScalar_of_checkName hversion⟩

namespace Configuration

variable {c : Configuration}

/-- A configuration is read off a mapping whose fields pass their checks. -/
theorem exists_record_of_checkFields (h : checkFields d = .valid c) :
    ∃ r : Record, d = r.whole ∧
      r.optional "config" firstVersion checkHead = .valid c.version ∧
      r.optional "project" none (Document.checkOption Artifact.ofDocument) = .valid c.project? ∧
      r.optional "dependencies" [] (Document.checkListOf Artifact.ofDocument) =
        .valid c.dependencies ∧
      r.required "output_directory" Document.checkPath = .valid c.outputDirectory ∧
      r.optional "compression_level" defaultLevel checkLevel = .valid c.compressionLevel ∧
      r.optional "strict_create" false Document.checkBool = .valid c.strictCreate ∧
      r.optional "minify" none (Document.checkOption MinifyTask.ofDocument) = .valid c.minify? ∧
      r.optional "modify" none (Document.checkOption ModifyTask.ofDocument) =
        .valid c.modify? := by
  obtain ⟨r, hwhole, h₀⟩ := Document.exists_record_of_checkRecord h
  obtain ⟨g₁, modify?, h₁, hmodify, rfl⟩ := seq_eq_valid.1 h₀
  obtain ⟨g₂, minify?, h₂, hminify, rfl⟩ := seq_eq_valid.1 h₁
  obtain ⟨g₃, strictCreate, h₃, hstrict, rfl⟩ := seq_eq_valid.1 h₂
  obtain ⟨g₄, level, h₄, hlevel, rfl⟩ := seq_eq_valid.1 h₃
  obtain ⟨g₅, outputDirectory, h₅, houtput, rfl⟩ := seq_eq_valid.1 h₄
  obtain ⟨g₆, dependencies, h₆, hdependencies, rfl⟩ := seq_eq_valid.1 h₅
  obtain ⟨g₇, project?, h₇, hproject, rfl⟩ := seq_eq_valid.1 h₆
  obtain ⟨version, hversion, rfl⟩ := map_eq_valid.1 h₇
  exact ⟨r, hwhole, hversion, hproject, hdependencies, houtput, hlevel, hstrict, hminify, hmodify⟩

theorem checkFields_of_ofDocument (h : ofDocument d = .valid c) : checkFields d = .valid c := by
  obtain ⟨c', hfields, h⟩ := andThen_eq_valid.1 h
  unfold checkDistinct at h
  split at h
  · obtain rfl := valid.inj h
    exact hfields
  · exact absurd h wrong_ne_valid

theorem isScalar_of_checkFields (h : checkFields d = .valid c) :
    ∀ a ∈ c.artifacts, a.IsScalar := by
  obtain ⟨r, -, -, hproject, hdependencies, -⟩ := exists_record_of_checkFields h
  intro a ha
  rcases List.mem_append.1 ha with ha | ha
  · have ha : c.project? = some a := Option.mem_toList.1 ha
    obtain hnone | ⟨d, hd⟩ := Record.exists_of_optional hproject
    · simp [← hnone] at ha
    · obtain ⟨d', hd'⟩ := Document.exists_of_checkOption hd a ha
      exact Artifact.isScalar_of_ofDocument hd'
  · obtain hnil | ⟨d, hd⟩ := Record.exists_of_optional hdependencies
    · simp [← hnil] at ha
    · obtain ⟨d', hd'⟩ := Document.exists_of_checkListOf hd a ha
      exact Artifact.isScalar_of_ofDocument hd'

theorem isScalar_of_ofDocument (h : ofDocument d = .valid c) :
    ∀ a ∈ c.artifacts, a.IsScalar :=
  isScalar_of_checkFields (checkFields_of_ofDocument h)

end Configuration

end Jarsmith

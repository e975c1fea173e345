import Jarsmith.Proofs.Configuration.Selection
import Jarsmith.Proofs.FileSystem.Reread

/-!
# Configurations that are written and read again

What passes a check passes it again when it is written down (`ReadsBack`): what was trimmed stays
trimmed, and what counts once is written once. Lists and records are read back if their items and
fields are, and so a configuration is read back as it was, but for its paths
(`Configuration.ofDocument_toDocument`). A path is written without a slash at its end and without
the dots in it, which may uncover white space that was within the text, and such white space is
dropped when the text is read.
-/

namespace Jarsmith

open Checked

/-! ### Checks whose results pass them again -/

section

variable {α : Type} {check : Document → Checked α} {write : α → Document} {f : α → α}

/-- What passes a check passes it again when it is written, and is then read as `f` of it. -/
def ReadsBack (check : Document → Checked α) (write : α → Document) (f : α → α) : Prop :=
  ∀ ⦃d : Document⦄ ⦃a : α⦄, check d = .valid a → check (write a) = .valid (f a)

namespace ReadsBack

/-- A rule on what was read is kept, since what is read back is the same. -/
theorem guard {p : α → Prop} [DecidablePred p] {violation : α → Violation}
    (h : ReadsBack check write id) : ReadsBack
      (fun d => (check d).andThen fun a => if p a then .wrong (violation a) d else .valid a)
      write id := by
  intro d a ha
  obtain ⟨hread, hp⟩ := guard_eq_valid.1 ha
  exact guard_eq_valid.2 ⟨h hread, hp⟩

theorem checkListOf (h : ReadsBack check write f) : ReadsBack (Document.checkListOf check)
    (fun as => .list (as.map write)) (List.map f) := by
  intro d as has
  rw [Document.checkListOf_list_eq_valid_iff, List.forall₂_map_right_iff, List.forall₂_same]
  intro a ha
  obtain ⟨d, hd⟩ := Document.exists_of_checkListOf has a ha
  exact h hd

/-! A field is found among those that are written by its place. -/

section

variable {r : Record} {field : Text} {a ifMissing : α} {a? : Option α}

theorem required (h : ReadsBack check write f) (fields : List (Text × Option Document))
    (hnames : Record.Unambiguous (fields.map Prod.fst)) (place : Nat)
    (hplace : fields[place]? = some (field, some (write a)))
    (ha : r.required field check = .valid a) :
    (Record.written fields).required field check = .valid (f a) := by
  obtain ⟨d, hd⟩ := Record.exists_of_required ha
  exact Record.required_written hnames (List.mem_of_getElem? hplace) (h hd)

/-- A field that was left out is read back if what stands for it is. -/
theorem optional (h : ReadsBack check write f) (fields : List (Text × Option Document))
    (hnames : Record.Unambiguous (fields.map Prod.fst)) (place : Nat)
    (hplace : fields[place]? = some (field, some (write a)))
    (hmissing : check (write ifMissing) = .valid (f ifMissing))
    (ha : r.optional field ifMissing check = .valid a) :
    (Record.written fields).optional field ifMissing check = .valid (f a) := by
  refine Record.optional_written hnames (List.mem_of_getElem? hplace) ?_
  obtain rfl | ⟨d, hd⟩ := Record.exists_of_optional ha
  · exact hmissing
  · exact h hd

/-- A part that was not there is not written, and so it is not there when it is read back. -/
theorem optional_option (h : ReadsBack check write f) (fields : List (Text × Option Document))
    (hnames : Record.Unambiguous (fields.map Prod.fst)) (place : Nat)
    (hplace : fields[place]? = some (field, a?.map write)) (hnull : ∀ a, write a ≠ .null)
    (ha : r.optional field none (Document.checkOption check) = .valid a?) :
    (Record.written fields).optional field none (Document.checkOption check) =
      .valid (a?.map f) := by
  refine Record.optional_written_option hnames (List.mem_of_getElem? hplace) fun a hmem => ?_
  obtain ⟨d, hd⟩ : ∃ d, check d = .valid a := by
    obtain rfl | ⟨d, hd⟩ := Record.exists_of_optional ha
    · exact absurd hmem (Option.not_mem_none a)
    · exact Document.exists_of_checkOption hd a hmem
  unfold Document.checkOption
  split
  · next hwrite => exact absurd hwrite (hnull a)
  · exact map_eq_valid.2 ⟨f a, h hd, rfl⟩

end

end ReadsBack

end

variable {d : Document} {t : Text} {n : Int}

/-! ### Texts and paths -/

theorem Document.trimWhiteSpace_of_checkText (h : d.checkText = .valid t) :
    t.trimWhiteSpace = t := by
  obtain ⟨u, -, rfl⟩ := exists_of_checkText h
  exact Text.trim_trim _ u

theorem readsBack_checkText : ReadsBack Document.checkText .text id := fun _ _ h =>
  Document.checkText_text_eq_valid_iff.2
    ⟨Document.isScalar_of_checkText h, (Document.trimWhiteSpace_of_checkText h).symm⟩

theorem readsBack_checkName : ReadsBack Document.checkName .text id := readsBack_checkText.guard

theorem readsBack_checkIdentifier : ReadsBack checkIdentifier .text id := readsBack_checkName.guard

theorem Path.isScalar_toText_ofText (h : t.IsScalar) : (ofText t).toText.IsScalar := by
  by_cases hempty : t = []
  · subst hempty
    exact Text.isScalar_ofString "."
  · exact fun c hc => h c ((toText_ofText_sublist hempty).subset hc)

/-- A path is read off its text without the white space at the ends of that. -/
theorem readsBack_checkPath : ReadsBack Document.checkPath (.text ·.toText) Path.reread := by
  intro d p h
  obtain ⟨u, hu, rfl⟩ := Document.exists_of_checkPath h
  have hscalar : (Path.ofText u.trimWhiteSpace).toText.IsScalar :=
    Path.isScalar_toText_ofText (Text.isScalar_trim _ (Document.isScalar_of_asText? hu))
  have hread : (Document.text (Path.ofText u.trimWhiteSpace).toText).checkText =
      .valid (Path.ofText u.trimWhiteSpace).toText.trimWhiteSpace :=
    Document.checkText_text_eq_valid_iff.2 ⟨hscalar, rfl⟩
  unfold Document.checkPath
  rw [hread]
  rfl

/-! ### Numbers and truth values -/

theorem readsBack_checkBool : ReadsBack Document.checkBool .bool id := fun _ _ _ => rfl

theorem Configuration.readsBack_checkVersion : ReadsBack checkVersion .int id := by
  intro d n h
  obtain ⟨m, -, h⟩ := andThen_eq_valid.1 h
  split at h
  · next hmem =>
    -- There is a single version that is known.
    obtain rfl := valid.inj h
    obtain rfl := List.mem_singleton.1 hmem
    rfl
  · exact absurd h wrong_ne_valid

theorem Document.checkIntegerIn_eq_valid_iff {least greatest : Int} :
    d.checkIntegerIn least (some greatest) = .valid n ↔
      d.checkInteger = .valid n ∧ least ≤ n ∧ n ≤ greatest := by
  unfold checkIntegerIn
  rw [andThen_eq_valid]
  constructor
  · rintro ⟨m, hm, h⟩
    dsimp only at h
    split_ifs at h
    · exact absurd h wrong_ne_valid
    · exact absurd h wrong_ne_valid
    · obtain rfl := valid.inj h
      exact ⟨hm, by omega, by omega⟩
  · rintro ⟨hn, hleast, hgreatest⟩
    refine ⟨n, hn, ?_⟩
    dsimp only
    rw [if_neg (by omega), if_neg (by omega)]

theorem Configuration.readsBack_checkLevel : ReadsBack checkLevel .int id := by
  intro d n h
  have hrange : defaultLevel ≤ n ∧ n ≤ 9 := by
    unfold checkLevel at h
    dsimp only at h
    split_ifs at h
    · obtain rfl := valid.inj h
      decide
    · exact (Document.checkIntegerIn_eq_valid_iff.1 h).2
  have hread : (Document.int n).checkIntegerIn defaultLevel (some 9) = .valid n :=
    Document.checkIntegerIn_eq_valid_iff.2 ⟨rfl, hrange⟩
  exact hread

/-! ### Lists -/

theorem checkNames_ofTexts {ts : List Text}
    (h : ∀ t ∈ ts, t.IsScalar ∧ t.trimBlanks = t ∧ t ≠ []) (hnodup : ts.Nodup) :
    checkNames (.ofTexts ts) = .valid ts := by
  have htrimmed : (ts.map Text.trimWhiteSpace).map Text.trimBlanks = ts := by
    rw [List.map_map]
    refine (List.map_congr_left fun t ht => ?_).trans (List.map_id ts)
    exact (Text.trimBlanks_trimWhiteSpace t).trans (h t ht).2.1
  have hkept : ts.filter (!·.isEmpty) = ts :=
    List.filter_eq_self.2 fun t ht => by simpa using (h t ht).2.2
  refine map_eq_valid.2 ⟨ts.map Text.trimWhiteSpace, ?_, ?_⟩
  · exact Document.checkListOf_ofTexts_eq_valid_iff.2 ⟨fun t ht => (h t ht).1, rfl⟩
  · rw [htrimmed, hkept, Text.unique_of_nodup hnodup]

theorem readsBack_checkNames : ReadsBack checkNames .ofTexts id := by
  intro d ts h
  obtain ⟨us, hus, rfl⟩ := map_eq_valid.1 h
  refine checkNames_ofTexts (fun t ht => ?_) (Text.nodup_unique _)
  obtain ⟨ht, hempty⟩ := List.mem_filter.1 (Text.mem_unique.1 ht)
  obtain ⟨u, hu, rfl⟩ := List.mem_map.1 ht
  obtain ⟨d, hd⟩ := Document.exists_of_checkListOf hus u hu
  exact ⟨Text.isScalar_trim _ (Document.isScalar_of_checkText hd), Text.trim_trim _ u,
    by simpa using hempty⟩

namespace Selector

variable {s : Selector} {ss : List Selector}

theorem checkAll_listDocument (hne : ss ≠ [])
    (h : ∀ s ∈ ss, s.WellFormed ∧ s.toText.IsScalar) (hnodup : ss.Nodup) :
    checkAll (listDocument ss) = .valid ss := by
  refine checkAll_ofTexts_eq_valid_iff.2
    ⟨by simpa using hne, List.forall_mem_map.2 fun s hs => (h s hs).2, ss, ?_,
      (Text.unique_of_nodup hnodup).symm⟩
  rw [List.forall₂_map_left_iff, List.forall₂_same]
  intro s hs
  rw [trimBlanks_toText (h s hs).1]
  exact ofText?_toText (h s hs).1

theorem readsBack_checkAll : ReadsBack checkAll listDocument id := by
  intro d ss h
  obtain ⟨ts, hsome, h⟩ := andThen_eq_valid.1 h
  obtain ⟨hitems, hne⟩ := Document.checkSomeOf_eq_valid_iff.1 hsome
  split at h
  · next parsed hparsed =>
    obtain rfl := valid.inj h
    have hparsed := ofTexts_eq_ok_iff.1 hparsed
    -- The selectors are those that were parsed, so that each has a text it is read off.
    refine checkAll_listDocument ?_ (fun s hs => ?_) (Text.nodup_unique parsed)
    · rw [ne_eq, Text.unique_eq_nil_iff]
      rintro rfl
      exact hne (List.forall₂_nil_right_iff.1 hparsed)
    · obtain ⟨t, ht, hs⟩ := (mem_parsed_iff hparsed).1 (Text.mem_unique.1 hs)
      obtain ⟨d, hd⟩ := Document.exists_of_checkListOf hitems t ht
      obtain ⟨hwell, htext⟩ := wellFormed_of_ofText? hs
      exact ⟨hwell, htext ▸ Text.isScalar_trim _ (Document.isScalar_of_checkText hd)⟩
  · exact absurd h wrong_ne_valid

end Selector

theorem readsBack_checkTransformer : ReadsBack checkTransformer (.text ·.name) id := by
  rintro d ⟨⟩ -
  rfl

/-! ### Artifacts and tasks -/

namespace Artifact

/-- The artifact as it is read back. -/
def reread (a : Artifact) : Artifact := { a with file := a.file.reread }

/-- The fields of an artifact as they are written. -/
def writtenFields (a : Artifact) : List (Text × Option Document) := [
  ("group_id", some (.text a.groupId)),
  ("artifact_id", some (.text a.artifactId)),
  ("version", some (.text a.version)),
  ("type", some (.text a.type)),
  ("file", some (.text a.file.toText))]

theorem toDocument_eq (a : Artifact) : a.toDocument = (Record.written a.writtenFields).whole := rfl

theorem readsBack : ReadsBack ofDocument toDocument reread := by
  intro d a h
  obtain ⟨r, -, hgroup, hartifact, hversion, htype, hfile⟩ := exists_record_of_ofDocument h
  -- Since no name is another one in camel case, each field is read for itself.
  have hnames : Record.Unambiguous fields := by decide
  have hgroup := readsBack_checkIdentifier.required a.writtenFields hnames 0 rfl hgroup
  have hartifact := readsBack_checkIdentifier.required a.writtenFields hnames 1 rfl hartifact
  have hversion := readsBack_checkName.required a.writtenFields hnames 2 rfl hversion
  have htype := readsBack_checkText.optional a.writtenFields hnames 3 rfl rfl htype
  have hfile := readsBack_checkPath.required a.writtenFields hnames 4 rfl hfile
  rw [toDocument_eq, ofDocument, Document.checkRecord_written _ _ a.writtenFields hnames rfl,
    hgroup, hartifact, hversion, htype, hfile]
  rfl

end Artifact

namespace MinifyTask

/-- The fields of a minification task as they are written. -/
def writtenFields (t : MinifyTask) : List (Text × Option Document) := [
  (Selector.field, some (Selector.listDocument t.selectors)),
  ("entry_points", some (.ofTexts t.entryPoints)),
  ("property_entry_points", some (.ofTexts t.propertyMembers)),
  ("service_entry_points", some (.ofTexts t.serviceMembers))]

theorem toDocument_eq (t : MinifyTask) :
    t.toDocument = (Record.written t.writtenFields).whole := rfl

theorem exists_record_of_ofDocument {t : MinifyTask} (h : ofDocument d = .valid t) :
    ∃ r : Record,
      r.required Selector.field Selector.checkAll = .valid t.selectors ∧
      r.optional "entry_points" [] checkNames = .valid t.entryPoints ∧
      r.optional "property_entry_points" [] checkNames = .valid t.propertyMembers ∧
      r.optional "service_entry_points" [] checkNames = .valid t.serviceMembers := by
  obtain ⟨r, h₀⟩ := Document.exists_of_checkRecord h
  obtain ⟨g₁, serviceMembers, h₁, hservice, rfl⟩ := seq_eq_valid.1 h₀
  obtain ⟨g₂, propertyMembers, h₂, hproperty, rfl⟩ := seq_eq_valid.1 h₁
  obtain ⟨g₃, entryPoints, h₃, hentry, rfl⟩ := seq_eq_valid.1 h₂
  obtain ⟨selectors, hselectors, rfl⟩ := map_eq_valid.1 h₃
  exact ⟨r, hselectors, hentry, hproperty, hservice⟩

theorem readsBack : ReadsBack ofDocument toDocument id := by
  intro d t h
  obtain ⟨r, hselectors, hentry, hproperty, hservice⟩ := exists_record_of_ofDocument h
  have hnames : Record.Unambiguous fields := by decide
  have hselectors := Selector.readsBack_checkAll.required t.writtenFields hnames 0 rfl hselectors
  have hentry := readsBack_checkNames.optional t.writtenFields hnames 1 rfl rfl hentry
  have hproperty := readsBack_checkNames.optional t.writtenFields hnames 2 rfl rfl hproperty
  have hservice := readsBack_checkNames.optional t.writtenFields hnames 3 rfl rfl hservice
  rw [toDocument_eq, ofDocument, Document.checkRecord_written _ _ t.writtenFields hnames rfl,
    hselectors, hentry, hproperty, hservice]
  rfl

end MinifyTask

namespace ModifyTask

/-- The fields of a modification task as they are written. -/
def writtenFields (t : ModifyTask) : List (Text × Option Document) := [
  (Selector.field, some (Selector.listDocument t.selectors)),
  ("transformers", some (.list (t.transformers.map (.text ·.name))))]

theorem toDocument_eq (t : ModifyTask) :
    t.toDocument = (Record.written t.writtenFields).whole := by
  unfold toDocument Document.ofTexts
  rw [List.map_map]
  rfl

theorem exists_record_of_ofDocument {t : ModifyTask} (h : ofDocument d = .valid t) :
    ∃ r : Record,
      r.required Selector.field Selector.checkAll = .valid t.selectors ∧
      r.optional "transformers" [] (Document.checkListOf checkTransformer) =
        .valid t.transformers := by
  obtain ⟨r, h₀⟩ := Document.exists_of_checkRecord h
  obtain ⟨g₁, transformers, h₁, htransformers, rfl⟩ := seq_eq_valid.1 h₀
  obtain ⟨selectors, hselectors, rfl⟩ := map_eq_valid.1 h₁
  exact ⟨r, hselectors, htransformers⟩

theorem readsBack : ReadsBack ofDocument toDocument id := by
  intro d t h
  obtain ⟨r, hselectors, htransformers⟩ := exists_record_of_ofDocument h
  have hnames : Record.Unambiguous fields := by decide
  have hselectors := Selector.readsBack_checkAll.required t.writtenFields hnames 0 rfl hselectors
  have htransformers :=
    readsBack_checkTransformer.checkListOf.optional t.writtenFields hnames 1 rfl rfl htransformers
  rw [toDocument_eq, ofDocument, Document.checkRecord_written _ _ t.writtenFields hnames rfl,
    hselectors, htransformers, List.map_id]
  rfl

end ModifyTask

namespace Configuration

variable {c : Configuration}

/-! ### Configurations -/

/-- The fields of the part of a configuration that tells of the configuration itself, as they are
written. -/
def writtenHead (version : Int) : List (Text × Option Document) :=
  [("version", some (.int version))]

theorem readsBack_checkHead :
    ReadsBack checkHead (fun version => (Record.written (writtenHead version)).whole) id := by
  intro d version h
  obtain ⟨r, hversion⟩ := Document.exists_of_checkRecord h
  have hnames : Record.Unambiguous ["version"] := by decide
  have hversion := readsBack_checkVersion.optional (writtenHead version) hnames 0 rfl rfl hversion
  rw [checkHead, Document.checkRecord_written _ _ (writtenHead version) hnames rfl, hversion]

/-- The configuration as it is read back. -/
def reread (c : Configuration) : Configuration :=
  { c with
    project? := c.project?.map Artifact.reread
    dependencies := c.dependencies.map Artifact.reread
    outputDirectory := c.outputDirectory.reread }

/-- The fields of a configuration as they are written. -/
def writtenFields (c : Configuration) : List (Text × Option Document) := [
  ("config", some (Record.written (writtenHead c.version)).whole),
  ("project", c.project?.map Artifact.toDocument),
  ("dependencies", some (.list (c.dependencies.map Artifact.toDocument))),
  ("output_directory", some (.text c.outputDirectory.toText)),
  ("compression_level", some (.int c.compressionLevel)),
  ("strict_create", some (.bool c.strictCreate)),
  ("minify", c.minify?.map MinifyTask.toDocument),
  ("modify", c.modify?.map ModifyTask.toDocument)]

theorem toDocument_eq (c : Configuration) :
    c.toDocument = (Record.written c.writtenFields).whole := by
  unfold toDocument Record.whole Record.written writtenFields
  simp only [List.append_assoc, List.flatMap_cons, List.flatMap_nil, List.append_nil]
  rfl

theorem checkFields_toDocument (h : checkFields d = .valid c) :
    checkFields c.toDocument = .valid c.reread := by
  obtain ⟨r, -, hversion, hproject, hdependencies, houtput, hlevel, hstrict, hminify, hmodify⟩ :=
    exists_record_of_checkFields h
  have hnames : Record.Unambiguous fields := by decide
  have hversion := readsBack_checkHead.optional c.writtenFields hnames 0 rfl rfl hversion
  have hproject :=
    Artifact.readsBack.optional_option c.writtenFields hnames 1 rfl (fun _ => nofun) hproject
  have hdependencies :=
    Artifact.readsBack.checkListOf.optional c.writtenFields hnames 2 rfl rfl hdependencies
  have houtput := readsBack_checkPath.required c.writtenFields hnames 3 rfl houtput
  have hlevel := readsBack_checkLevel.optional c.writtenFields hnames 4 rfl rfl hlevel
  have hstrict := readsBack_checkBool.optional c.writtenFields hnames 5 rfl rfl hstrict
  have hminify :=
    MinifyTask.readsBack.optional_option c.writtenFields hnames 6 rfl (fun _ => nofun) hminify
  have hmodify :=
    ModifyTask.readsBack.optional_option c.writtenFields hnames 7 rfl (fun _ => nofun) hmodify
  rw [toDocument_eq, checkFields, Document.checkRecord_written _ _ c.writtenFields hnames rfl,
    hversion, hproject, hdependencies, houtput, hlevel, hstrict, hminify, hmodify, Option.map_id,
    Option.map_id]
  rfl

theorem artifacts_reread (c : Configuration) :
    c.reread.artifacts = c.artifacts.map Artifact.reread := by
  unfold artifacts
  rw [List.map_append, ← Option.toList_map]
  rfl

theorem paths_reread (c : Configuration) : c.reread.paths = c.paths.map Path.reread := by
  unfold paths
  rw [artifacts_reread, List.map_map, List.map_cons, List.map_map]
  rfl

theorem checkDistinct_reread (d : Document)
    (h : (c.artifacts.map fun a => (a.artifactId, a.version)).Nodup) :
    checkDistinct d c.reread = .valid c.reread := by
  have hnone : firstDuplicate? [] c.reread.artifacts = none := by
    refine firstDuplicate?_eq_none_iff.2 ⟨?_, fun _ _ => List.not_mem_nil⟩
    rw [artifacts_reread, List.map_map]
    exact h
  unfold checkDistinct
  rw [hnone]

theorem exists_ofText_of_mem_paths (h : ofDocument d = .valid c) :
    ∀ p ∈ c.paths, ∃ t, p = Path.ofText t := by
  have hvalues := forall₂_pathValues h
  generalize d.pathValues = vs, c.paths = ps at hvalues
  induction hvalues with
  | nil => simp
  | cons hfirst _ ih =>
    obtain ⟨u, -, hu⟩ := Document.exists_of_checkPath hfirst
    exact List.forall_mem_cons.2 ⟨⟨u.trimWhiteSpace, hu.symm⟩, ih⟩

/-- A configuration is read back as it was exactly if its paths are. -/
theorem reread_eq_iff (c : Configuration) : c.reread = c ↔ ∀ p ∈ c.paths, p.reread = p := by
  constructor
  · intro heq
    have hpaths := c.paths_reread
    rw [heq] at hpaths
    exact List.map_eq_map_iff.1 (hpaths.symm.trans (List.map_id c.paths).symm)
  · intro hpaths
    obtain ⟨houtput, hfiles⟩ := List.forall_mem_cons.1 hpaths
    have hartifacts : ∀ a ∈ c.artifacts, a.reread = a := fun a ha => by
      rw [Artifact.reread, hfiles a.file (List.mem_map_of_mem ha)]
    obtain ⟨hproject, hdependencies⟩ := List.forall_mem_append.1 hartifacts
    have hproject : c.project?.map Artifact.reread = c.project? := by
      cases hc : c.project? with
      | none => rfl
      | some a => rw [Option.map_some, hproject a (by simp [hc])]
    have hdependencies : c.dependencies.map Artifact.reread = c.dependencies :=
      (List.map_congr_left hdependencies).trans (List.map_id c.dependencies)
    rw [reread, hproject, hdependencies, houtput]

/-- **Configurations that are written and read again**: a configuration that validation accepted is
accepted when it is written, and nothing but its paths may differ from what was written. It is the
same exactly if no text of its paths has white space at its ends. -/
theorem ofDocument_toDocument (h : ofDocument d = .valid c) :
    ofDocument c.toDocument = .valid c.reread ∧
      (c.reread = c ↔ ∀ p ∈ c.paths, p.toText.trimWhiteSpace = p.toText) := by
  constructor
  · refine andThen_eq_valid.2 ⟨c.reread, checkFields_toDocument (checkFields_of_ofDocument h), ?_⟩
    exact checkDistinct_reread c.toDocument (nodup_of_ofDocument h)
  · -- Every path was read off a text, and such a path is told by its own text.
    rw [reread_eq_iff]
    refine forall₂_congr fun p hp => ?_
    obtain ⟨t, rfl⟩ := exists_ofText_of_mem_paths h p hp
    exact Path.reread_ofText_eq_iff t

/-- A document in camel case with padded and repeated selectors and names. -/
def Sample.paddedDocument : Document := .mapping [
  (.text "project", Selector.Sample.artifactDocument " g " "a"),
  (.text "outputDirectory", .text " out/./x/ "),
  (.text "compressionLevel", .text " Default "),
  (.text "minify", .mapping [
    (.text "artifacts", .ofTexts ["g:* ", "g:*", "h:a"]),
    (.text "entryPoints", .ofTexts [" X", "", "X", "Y"])]),
  (.text "modify", .mapping [
    (.text "artifacts", .ofTexts ["*:*"]),
    (.text "transformers", .ofTexts ["remove_debug_information"])])]

/-- What it is read as. -/
def Sample.paddedConfiguration : Configuration where
  version := firstVersion
  project? := some ⟨"g", "a", "1", archiveType, "/a.jar"⟩
  dependencies := []
  outputDirectory := "out/x"
  compressionLevel := defaultLevel
  strictCreate := false
  minify? := some ⟨[.group "g", .artifact "h" "a"], ["X", "Y"], [], []⟩
  modify? := some ⟨[.all], [.removeDebugInformation]⟩

theorem ofDocument_toDocument_of_padded :
    ofDocument Sample.paddedDocument = .valid Sample.paddedConfiguration ∧
    ofDocument Sample.paddedConfiguration.toDocument = .valid Sample.paddedConfiguration := by
  have hread : ofDocument Sample.paddedDocument = .valid Sample.paddedConfiguration := by rfl
  obtain ⟨hback, hsame⟩ := ofDocument_toDocument hread
  rw [hsame.2 (by decide)] at hback
  exact ⟨hread, hback⟩

/-- White space that stood before the last slash of a text ends the text of the path, and is dropped
when that is read. -/
theorem written_path_may_differ : ¬ ∀ (d : Document) (c : Configuration),
    ofDocument d = .valid c → ofDocument c.toDocument = .valid c := by
  intro h
  have hread : ofDocument (.mapping [(.text "output_directory", .text "a/ /")]) =
      .valid ⟨firstVersion, none, [], ⟨0, ["a", " "]⟩, defaultLevel, false, none, none⟩ := by rfl
  have hback := h _ _ hread
  have hother : ofDocument (toDocument
      ⟨firstVersion, none, [], ⟨0, ["a", " "]⟩, defaultLevel, false, none, none⟩) =
      .valid ⟨firstVersion, none, [], ⟨0, ["a"]⟩, defaultLevel, false, none, none⟩ := by rfl
  have heq := valid.inj (hback.symm.trans hother)
  exact absurd (congrArg outputDirectory heq) (by decide)

end Configuration

end Jarsmith

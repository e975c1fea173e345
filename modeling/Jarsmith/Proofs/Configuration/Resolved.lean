import Jarsmith.Configuration.File
import Jarsmith.Proofs.Configuration.Validated
import Jarsmith.Proofs.FileSystem.Expansion

/-!
# The paths of configurations that are loaded

Paths are resolved in a document before validation reads it. Both look at the same values: the one
spelling of a field that counts is resolved, since the other one is too
(`Record.value?_mapValues_of_mem`), and so what is loaded is told value by value
(`Document.pathValues`, `forall₂_path?`).

But a text is resolved with the white space at its ends, which validation drops from the path that
comes of it, and an empty text is not resolved at all. A text that is loaded as what it means without
that white space is settled (`IsSettled`). White space after a text is harmless as a rule
(`isSettled_append`), and white space before it never is if it stands before a name
(`not_isSettled_append_left`).
-/

namespace Jarsmith

open Checked

/-! ### Fields -/

section

variable {field : Text} {keys : List Text} {entries : List (Document × Document)}
  {f : Document → Document}

/-- The value of a field of a mapping. -/
def Document.field? (d : Document) (field : Text) : Option Document :=
  match d with
  | .mapping entries => (Record.mk entries).value? field
  | _ => none

namespace Document

theorem eq_text_of_beq {key : Document} {t : Text} (h : (key == .text t) = true) :
    key = .text t := by
  cases key with
  | text u => exact congrArg _ (beq_iff_eq.1 (h : (u == t) = true))
  | _ => exact absurd (h : false = true) Bool.false_ne_true

theorem text_beq_text (t u : Text) : ((text t : Document) == text u) = (t == u) := rfl

theorem lookupText?_cons (key : Text) (k : Document) (d : Document) :
    lookupText? ((k, d) :: entries) key =
      if k == .text key then some d else lookupText? entries key := by
  unfold lookupText?
  rw [List.find?_cons]
  dsimp only
  cases k == text key <;> rfl

theorem mapValues_cons (keys : List Text) (f : Document → Document) (k d : Document) :
    Configuration.mapValues keys f ((k, d) :: entries) =
      (k, if keys.any fun key => k == .text key then f d else d) ::
        Configuration.mapValues keys f entries := by
  unfold Configuration.mapValues
  rw [List.map_cons]
  dsimp only
  split <;> rfl

theorem lookupText?_mapValues (keys : List Text) (f : Document → Document) (key : Text) :
    lookupText? (Configuration.mapValues keys f entries) key =
      (lookupText? entries key).map (if key ∈ keys then f else id) := by
  induction entries with
  | nil => rfl
  | cons entry entries ih =>
    obtain ⟨k, d⟩ := entry
    rw [mapValues_cons, lookupText?_cons, lookupText?_cons, ih]
    split
    · next hk =>
      obtain rfl := eq_text_of_beq hk
      have hany : (keys.any fun other => text key == text other) = decide (key ∈ keys) := by
        simp [text_beq_text, List.any_beq]
      rw [hany, Option.map_some]
      by_cases hkey : key ∈ keys <;> simp [hkey]
    · rfl

end Document

/-- The values of a field are changed if both its spellings are among the keys. -/
theorem Record.value?_mapValues_of_mem (hcamel : camelCase field ∈ keys) (hfield : field ∈ keys) :
    (Record.mk (Configuration.mapValues keys f entries)).value? field =
      ((Record.mk entries).value? field).map f := by
  unfold value? given?
  simp only [Document.lookupText?_mapValues, if_pos hcamel, if_pos hfield]
  cases Document.lookupText? entries (camelCase field) with
  | some d => rfl
  | none => cases Document.lookupText? entries field <;> rfl

theorem Record.value?_mapValues_of_notMem (hcamel : camelCase field ∉ keys)
    (hfield : field ∉ keys) :
    (Record.mk (Configuration.mapValues keys f entries)).value? field =
      (Record.mk entries).value? field := by
  unfold value? given?
  simp only [Document.lookupText?_mapValues, if_neg hcamel, if_neg hfield, Option.map_id, id]

end

/-! ### Values that stand for paths -/

/-- A value that stands for a path. -/
structure PathValue where
  value : Document
  /-- Paths are resolved where the value stands. -/
  isResolved : Bool

namespace PathValue

/-- What validation is given for the value. -/
def resolve (means : Text → Path) (v : PathValue) : PathValue :=
  { v with value := if v.isResolved then Configuration.resolveValue means v.value else v.value }

/-- The path that is loaded for the value, where a text that is resolved becomes `means` of it:
white space at its ends is there when it is resolved, and dropped from what comes of that. A text
that is empty is not resolved, and neither are bytes. -/
def path? (means : Text → Path) (v : PathValue) : Option Path :=
  match v.value with
  | .text t => some (Path.ofText
      (Text.trimWhiteSpace (if v.isResolved ∧ t ≠ [] then (means t).toText else t)))
  | .bytes b => (Utf8.decode b).map fun t => Path.ofText t.trimWhiteSpace
  | _ => none

variable {means : Text → Path} {v : PathValue} {p : Path}

theorem checkPath_text {t : Text} (h : (Document.text t).checkPath = .valid p) :
    Path.ofText t.trimWhiteSpace = p := by
  obtain ⟨u, hx, rfl⟩ := Document.exists_of_checkPath h
  have hx := Option.some.inj hx
  split at hx
  · exact absurd hx wrong_ne_valid
  · rw [valid.inj hx]

theorem checkPath_bytes {b : Bytes} (h : (Document.bytes b).checkPath = .valid p) :
    (Utf8.decode b).map (fun t => Path.ofText t.trimWhiteSpace) = some p := by
  obtain ⟨u, hx, rfl⟩ := Document.exists_of_checkPath h
  have hx := Option.some.inj hx
  split at hx
  · next t ht => rw [ht, valid.inj hx, Option.map_some]
  · exact absurd hx wrong_ne_valid

theorem resolveValue_text (means : Text → Path) (t : Text) :
    Configuration.resolveValue means (.text t) =
      .text (if t ≠ [] then (means t).toText else t) := by
  cases t <;> rfl

/-- What validation makes of the value is the path. -/
theorem path?_of_checkPath (h : (v.resolve means).value.checkPath = .valid p) :
    v.path? means = some p := by
  obtain ⟨value, isResolved⟩ := v
  unfold resolve at h
  dsimp only at h
  cases value with
  | text t =>
    have hvalue : (if isResolved then Configuration.resolveValue means (.text t) else .text t) =
        .text (if isResolved ∧ t ≠ [] then (means t).toText else t) := by
      cases isResolved with
      | false => simp
      | true => simp [resolveValue_text]
    rw [hvalue] at h
    exact congrArg some (checkPath_text h)
  | bytes b =>
    have hvalue : (if isResolved then Configuration.resolveValue means (.bytes b) else .bytes b) =
        .bytes b := by
      cases isResolved <;> rfl
    rw [hvalue] at h
    exact checkPath_bytes h
  | _ =>
    obtain ⟨u, hx, -⟩ := Document.exists_of_checkPath h
    cases isResolved <;> exact absurd hx (by simp [Configuration.resolveValue, Document.asText?])

end PathValue

namespace Document

/-- The value for the path of an artifact. -/
def artifactPaths (isResolved : Bool) (d : Document) : List PathValue :=
  (d.field? "file").toList.map (⟨·, isResolved⟩)

/-- The values for the paths of artifacts. Only those in a list are resolved. -/
def dependencyPaths : Document → List PathValue
  | .list items => items.flatMap (artifactPaths true)
  | .tuple items | .set items => items.flatMap (artifactPaths false)
  | _ => []

/-- The values for the paths of a configuration: that of the output directory, and those of the
artifacts in their order. -/
def pathValues (d : Document) : List PathValue :=
  (d.field? "output_directory").toList.map (⟨·, true⟩) ++
    ((d.field? "project").toList.flatMap (artifactPaths true) ++
      (d.field? "dependencies").toList.flatMap dependencyPaths)

end Document

namespace Configuration

/-- The paths of a configuration: the output directory and the files of the artifacts. -/
def paths (c : Configuration) : List Path := c.outputDirectory :: c.artifacts.map (·.file)

variable {c : Configuration} {d : Document} {means : Text → Path}

theorem forall₂_artifactPaths {a : Artifact} (h : Artifact.ofDocument d = .valid a)
    (isResolved : Bool) : List.Forall₂ (fun v p => v.value.checkPath = .valid p)
      (d.artifactPaths isResolved) [a.file] := by
  obtain ⟨r, rfl, -, -, -, -, hfile⟩ := Artifact.exists_record_of_ofDocument h
  obtain ⟨value, hvalue, hcheck⟩ := Record.exists_value_of_required hfile
  have hpaths : r.whole.artifactPaths isResolved = [⟨value, isResolved⟩] := by
    have hfield : r.whole.field? "file" = some value := hvalue
    rw [Document.artifactPaths, hfield]
    rfl
  rw [hpaths]
  exact .cons hcheck .nil

theorem forall₂_dependencyPaths {as : List Artifact}
    (h : d.checkListOf Artifact.ofDocument = .valid as) :
    List.Forall₂ (fun v p => v.value.checkPath = .valid p) d.dependencyPaths
      (as.map (·.file)) := by
  obtain ⟨ds, hds, h⟩ := andThen_eq_valid.1 h
  have hall (isResolved : Bool) : List.Forall₂ (fun v p => v.value.checkPath = .valid p)
      (ds.flatMap (Document.artifactPaths isResolved)) (as.map (·.file)) := by
    rw [List.map_eq_flatMap]
    exact List.rel_flatMap (forall₂_of_items h)
      fun d a ha => forall₂_artifactPaths ha isResolved
  unfold Document.checkList at hds
  split at hds
  · obtain rfl := valid.inj hds
    exact hall true
  · obtain rfl := valid.inj hds
    exact hall false
  · obtain rfl := valid.inj hds
    exact hall false
  · exact absurd hds wrong_ne_valid

theorem forall₂_projectPaths {a? : Option Artifact}
    (h : d.checkOption Artifact.ofDocument = .valid a?) :
    List.Forall₂ (fun v p => v.value.checkPath = .valid p) (d.artifactPaths true)
      (a?.toList.map (·.file)) := by
  unfold Document.checkOption at h
  split at h
  · obtain rfl := valid.inj h
    exact .nil
  · obtain ⟨a, ha, rfl⟩ := map_eq_valid.1 h
    exact forall₂_artifactPaths ha true

/-- What is validated is what the paths of the configuration are read off. -/
theorem forall₂_pathValues (h : ofDocument d = .valid c) :
    List.Forall₂ (fun v p => v.value.checkPath = .valid p) d.pathValues c.paths := by
  obtain ⟨r, rfl, -, hproject, hdependencies, houtput, -⟩ :=
    exists_record_of_checkFields (checkFields_of_ofDocument h)
  obtain ⟨value, hvalue, hcheck⟩ := Record.exists_value_of_required houtput
  have hfield (field : Text) : r.whole.field? field = r.value? field := rfl
  have hprojects : List.Forall₂ (fun v p => v.value.checkPath = .valid p)
      ((r.value? "project").toList.flatMap (Document.artifactPaths true))
      (c.project?.toList.map (·.file)) := by
    obtain ⟨hnone, hempty⟩ | ⟨d, hd, hcheck⟩ := Record.value_of_optional hproject
    · rw [hnone, ← hempty]
      exact .nil
    · rw [hd]
      simpa using forall₂_projectPaths hcheck
  have hall : List.Forall₂ (fun v p => v.value.checkPath = .valid p)
      ((r.value? "dependencies").toList.flatMap Document.dependencyPaths)
      (c.dependencies.map (·.file)) := by
    obtain ⟨hnone, hempty⟩ | ⟨d, hd, hcheck⟩ := Record.value_of_optional hdependencies
    · rw [hnone, ← hempty]
      exact .nil
    · rw [hd]
      simpa using forall₂_dependencyPaths hcheck
  unfold Document.pathValues paths artifacts
  rw [hfield, hfield, hfield, hvalue, List.map_append]
  exact .cons hcheck (List.rel_append hprojects hall)

theorem artifactPaths_resolveArtifact (means : Text → Path) (d : Document) :
    (resolveArtifact means d).artifactPaths true =
      (d.artifactPaths true).map (PathValue.resolve means) := by
  cases d with
  | mapping entries =>
    have hfield : (resolveArtifact means (.mapping entries)).field? "file" =
        ((Document.mapping entries).field? "file").map (resolveValue means) :=
      Record.value?_mapValues_of_mem (by decide) (by decide)
    unfold Document.artifactPaths
    rw [hfield]
    cases (Document.mapping entries).field? "file" <;> rfl
  | _ => rfl

theorem dependencyPaths_resolveArtifacts (means : Text → Path) (d : Document) :
    (resolveArtifacts means d).dependencyPaths =
      d.dependencyPaths.map (PathValue.resolve means) := by
  -- Where nothing is resolved the values stay as they are.
  have hkept (items : List Document) : items.flatMap (Document.artifactPaths false) =
      (items.flatMap (Document.artifactPaths false)).map (PathValue.resolve means) := by
    refine (List.map_id _).symm.trans (List.map_congr_left fun v hv => ?_)
    obtain ⟨d, -, hd⟩ := List.mem_flatMap.1 hv
    obtain ⟨value, -, rfl⟩ := List.mem_map.1 hd
    rfl
  cases d with
  | list items =>
    unfold resolveArtifacts Document.dependencyPaths
    dsimp only
    rw [List.flatMap_map, List.map_flatMap]
    exact List.flatMap_congr fun d _ => artifactPaths_resolveArtifact means d
  | tuple items => exact hkept items
  | set items => exact hkept items
  | _ => rfl

/-- Resolving the paths of a document changes its values for paths, as far as they are resolved, and
no other. -/
theorem pathValues_resolvePaths (means : Text → Path) (d : Document) :
    (resolvePaths means d).pathValues = d.pathValues.map (PathValue.resolve means) := by
  cases d with
  | mapping entries =>
    have hfield (field : Text) : (resolvePaths means (.mapping entries)).field? field =
        (Record.mk (mapValues ["output_directory", "outputDirectory"] (resolveValue means)
          (mapValues ["project"] (resolveArtifact means)
            (mapValues ["dependencies"] (resolveArtifacts means) entries)))).value? field := rfl
    have houtput : (resolvePaths means (.mapping entries)).field? "output_directory" =
        ((Document.mapping entries).field? "output_directory").map (resolveValue means) := by
      rw [hfield, Record.value?_mapValues_of_mem (by decide) (by decide),
        Record.value?_mapValues_of_notMem (by decide) (by decide),
        Record.value?_mapValues_of_notMem (by decide) (by decide)]
      rfl
    have hproject : (resolvePaths means (.mapping entries)).field? "project" =
        ((Document.mapping entries).field? "project").map (resolveArtifact means) := by
      rw [hfield, Record.value?_mapValues_of_notMem (by decide) (by decide),
        Record.value?_mapValues_of_mem (by decide) (by decide),
        Record.value?_mapValues_of_notMem (by decide) (by decide)]
      rfl
    have hdependencies : (resolvePaths means (.mapping entries)).field? "dependencies" =
        ((Document.mapping entries).field? "dependencies").map (resolveArtifacts means) := by
      rw [hfield, Record.value?_mapValues_of_notMem (by decide) (by decide),
        Record.value?_mapValues_of_notMem (by decide) (by decide),
        Record.value?_mapValues_of_mem (by decide) (by decide)]
      rfl
    unfold Document.pathValues
    rw [houtput, hproject, hdependencies, List.map_append, List.map_append]
    refine congr (congrArg _ ?_) (congr (congrArg _ ?_) ?_)
    · cases (Document.mapping entries).field? "output_directory" <;> rfl
    · cases (Document.mapping entries).field? "project" with
      | none => rfl
      | some d => simpa using artifactPaths_resolveArtifact means d
    · cases (Document.mapping entries).field? "dependencies" with
      | none => rfl
      | some d => simpa using dependencyPaths_resolveArtifacts means d
  | _ => rfl

/-! ### Paths that are loaded -/

/-- The path that is loaded for a text that is resolved is what the text without the white space at
its ends means: the text is not empty, and what it means with its white space is the same but for
white space at the end. -/
structure IsSettled (means : Text → Path) (t : Text) : Prop where
  notEmpty : t ≠ []
  same : Path.ofText (means t).toText.trimWhiteSpace = means t.trimWhiteSpace

instance (means : Text → Path) (t : Text) : Decidable (IsSettled means t) :=
  decidable_of_iff (t ≠ [] ∧ Path.ofText (means t).toText.trimWhiteSpace = means t.trimWhiteSpace)
    ⟨fun h => ⟨h.1, h.2⟩, fun h => ⟨h.notEmpty, h.same⟩⟩

variable {env : Environment} {root : Place} {directory t lead trail : Text} {base : Path}

theorem forall₂_path? (h : ofDocumentAt env root base d = .ok c) :
    List.Forall₂ (fun v p => v.path? (env.expand root (some base)) = some p) d.pathValues
      c.paths := by
  unfold ofDocumentAt at h
  split at h
  · next c' hc =>
    obtain rfl := Except.ok.inj h
    have hvalues := forall₂_pathValues hc
    rw [pathValues_resolvePaths, List.forall₂_map_left_iff] at hvalues
    exact hvalues.imp fun v p => PathValue.path?_of_checkPath
  · simp at h

theorem path?_eq_iff {p : Path} (hmeans : (means t.trimWhiteSpace).slashes = 1)
    (h : PathValue.path? means ⟨.text t, true⟩ = some p) :
    p = means t.trimWhiteSpace ↔ IsSettled means t := by
  obtain rfl := Option.some.inj h
  by_cases hempty : t = []
  · subst hempty
    refine ⟨fun heq => ?_, fun hsettled => absurd rfl hsettled.notEmpty⟩
    rw [← heq, if_neg (by simp)] at hmeans
    exact absurd hmeans (by decide)
  · rw [if_pos ⟨rfl, hempty⟩]
    exact ⟨fun heq => ⟨hempty, heq⟩, fun hsettled => hsettled.same⟩

theorem isSettled_iff_of_trim (hdirectory : (Path.ofText directory).isAbsolute = true)
    (ht : t.trimWhiteSpace = t) :
    IsSettled (env.expand root (some (Path.ofText directory))) t ↔
      t ≠ [] ∧ ∀ c ∈ (env.expand root (some (Path.ofText directory)) t).name.getLast?,
        c.isWhiteSpace = false := by
  rw [← Path.ofText_trim_toText_eq_iff rfl (Environment.isPart_of_mem_expand hdirectory root t)]
  refine ⟨fun ⟨hempty, hsame⟩ => ⟨hempty, ?_⟩, fun ⟨hempty, hsame⟩ => ⟨hempty, ?_⟩⟩
  · rwa [ht] at hsame
  · rwa [ht]

theorem isSettled_append (hdirectory : (Path.ofText directory).isAbsolute = true)
    (ht : t.trimWhiteSpace = t) (hname : env.EndsWithName t)
    (htrail : ∀ c ∈ trail, c.isWhiteSpace = true) :
    IsSettled (env.expand root (some (Path.ofText directory))) (t ++ trail) := by
  have hempty : t ≠ [] := by
    rintro rfl
    exact hname.isPart.2.1 rfl
  have htrim : Text.trimWhiteSpace (t ++ trail) = t :=
    (Text.trim_append htrail t).trans ht
  refine ⟨List.append_ne_nil_of_left_ne_nil hempty trail, ?_⟩
  rw [htrim, Environment.ofText_trim_expand_append hdirectory root hname htrail]

theorem not_isSettled_append_left (hdirectory : (Path.ofText directory).isAbsolute = true)
    (ht : t.trimWhiteSpace = t) (hname : env.BeginsWithName t)
    (hlead : ∀ c ∈ lead, c.isWhiteSpace = true) (hne : lead ≠ []) :
    ¬ IsSettled (env.expand root (some (Path.ofText directory))) (lead ++ t) := by
  rintro ⟨-, hsame⟩
  have htrim : Text.trimWhiteSpace (lead ++ t) = t := (Text.trim_append_left hlead t).trans ht
  rw [htrim] at hsame
  exact Environment.ofText_trim_expand_append_left hdirectory root hname hlead hne hsame

/-- **Paths of loaded configurations**: each value for a path is loaded as `PathValue.path?` says,
and a text that is resolved becomes what the text without the white space at its ends means exactly
if it is settled. Texts without such white space are settled unless the path that they mean ends in
some, or they are empty; white space after a text is harmless if the text ends in a name; and white
space before a text that begins with a name never is. -/
theorem paths_resolved (hdirectory : (Path.ofText directory).isAbsolute = true)
    (h : ofDocumentAt env root (Path.ofText directory) d = .ok c) :
    List.Forall₂ (fun v p => v.path? (env.expand root (some (Path.ofText directory))) = some p ∧
        ∀ t, v = ⟨.text t, true⟩ →
          (p = env.expand root (some (Path.ofText directory)) t.trimWhiteSpace ↔
            IsSettled (env.expand root (some (Path.ofText directory))) t))
      d.pathValues c.paths ∧
    (∀ t : Text, t.trimWhiteSpace = t →
      (IsSettled (env.expand root (some (Path.ofText directory))) t ↔
        t ≠ [] ∧ ∀ c ∈ (env.expand root (some (Path.ofText directory)) t).name.getLast?,
          c.isWhiteSpace = false)) ∧
    (∀ t trail : Text, t.trimWhiteSpace = t → env.EndsWithName t →
      (∀ c ∈ trail, c.isWhiteSpace = true) →
        IsSettled (env.expand root (some (Path.ofText directory))) (t ++ trail)) ∧
    (∀ t lead : Text, t.trimWhiteSpace = t → env.BeginsWithName t →
      (∀ c ∈ lead, c.isWhiteSpace = true) → lead ≠ [] →
        ¬ IsSettled (env.expand root (some (Path.ofText directory))) (lead ++ t)) := by
  refine ⟨(forall₂_path? h).imp fun v p hpath => ⟨hpath, ?_⟩,
    fun t => isSettled_iff_of_trim hdirectory, fun t trail => isSettled_append hdirectory,
    fun t lead => not_isSettled_append_left hdirectory⟩
  rintro t rfl
  exact path?_eq_iff rfl hpath

/-- A document with a home directory, a way up, a variable, and white space after a path. -/
def Sample.pathDocument : Document := .mapping [
  (.text "project", .mapping [
    (.text "groupId", .text "g"), (.text "artifactId", .text "p"), (.text "version", .text "1"),
    (.text "file", .text "../$V/p.jar ")]),
  (.text "dependencies", .list [.mapping [
    (.text "groupId", .text "g"), (.text "artifactId", .text "d"), (.text "version", .text "1"),
    (.text "file", .text "/d.jar")]]),
  (.text "outputDirectory", .text "~/out")]

/-- The environment in which it is loaded. -/
def Sample.environment : Environment := ⟨[("HOME", "/home/u"), ("V", "lib")], []⟩

/-- What comes of that document. -/
def Sample.pathConfiguration : Configuration where
  version := firstVersion
  project? := some ⟨"g", "p", "1", archiveType, "/base/lib/p.jar"⟩
  dependencies := [⟨"g", "d", "1", archiveType, "/d.jar"⟩]
  outputDirectory := "/home/u/out"
  compressionLevel := defaultLevel
  strictCreate := false
  minify? := none
  modify? := none

theorem paths_resolved_of_trailing_space :
    (Path.ofText "/base/dir").isAbsolute = true ∧
    ofDocumentAt Sample.environment [] (Path.ofText "/base/dir") Sample.pathDocument =
      .ok Sample.pathConfiguration ∧
    Sample.pathConfiguration.paths = (["~/out", "../$V/p.jar", "/d.jar"] : List Text).map
      (Sample.environment.expand [] (some (Path.ofText "/base/dir"))) := by
  have habsolute : (Path.ofText "/base/dir").isAbsolute = true := by decide
  have hload : ofDocumentAt Sample.environment [] (Path.ofText "/base/dir") Sample.pathDocument =
      .ok Sample.pathConfiguration := by rfl
  refine ⟨habsolute, hload, ?_⟩
  obtain ⟨hvalues, -⟩ := paths_resolved habsolute hload
  obtain ⟨⟨-, hout⟩, hvalues⟩ := List.forall₂_cons.1 hvalues
  obtain ⟨⟨-, hproject⟩, hvalues⟩ := List.forall₂_cons.1 hvalues
  obtain ⟨⟨-, hdependency⟩, -⟩ := List.forall₂_cons.1 hvalues
  have hout := (hout "~/out" rfl).2 (by decide)
  have hproject := (hproject "../$V/p.jar " rfl).2 (by decide)
  have hdependency := (hdependency "/d.jar" rfl).2 (by decide)
  exact congr (congrArg _ hout) (congr (congrArg _ hproject) (congrArg (fun p => [p]) hdependency))

/-- White space before a path is taken for a part of its name, so that the path of the text without
it is not loaded. -/
theorem padded_path_may_differ : ¬ ∀ (env : Environment) (root : Place) (directory : Text)
    (d : Document) (c : Configuration), (Path.ofText directory).isAbsolute = true →
    ofDocumentAt env root (Path.ofText directory) d = .ok c →
    List.Forall₂
      (fun v p => ∀ t, v.value = .text t →
        p = env.expand root (some (Path.ofText directory)) t.trimWhiteSpace)
      d.pathValues c.paths := by
  intro h
  have hload : ofDocumentAt ⟨[], []⟩ [] (Path.ofText "/base/dir")
      (.mapping [(.text "output_directory", .text " out")]) = .ok
        ⟨firstVersion, none, [], "/base/dir/ out", defaultLevel, false, none, none⟩ := by rfl
  have hpaths := h _ _ _ _ _ (by decide) hload
  obtain ⟨hout, -⟩ := List.forall₂_cons.1 hpaths
  exact absurd (hout " out" rfl) (by decide)

end Configuration

end Jarsmith

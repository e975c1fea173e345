import Mathlib.Data.List.Induction
import Jarsmith.Configuration.Assignment
import Jarsmith.Proofs.Configuration.OutputName
import Jarsmith.Proofs.Configuration.Validated

/-!
# Configurations while they are assigned to

In a configuration that validation accepts, no two artifacts have one name and version
(`Distinct`). An assignment keeps this, and leaves all as it was if it is rejected, with one
exception: a valid value that gives an artifact the name and version of another one (`Repeats`).
Such a value always stays. If it is one of the configuration itself, the assignment is rejected
after it was made; if it is one of an artifact in it, nothing is looked at, and the assignment is
accepted (`assign_of_repeats`).

So the artifacts are distinct in all states of a session exactly if no assignment in it repeats an
artifact (`distinct_after_assignments_iff`).
-/

namespace Jarsmith

/-- What an artifact is told apart by. -/
def Artifact.key (a : Artifact) : Text × Text := (a.artifactId, a.version)

namespace Configuration

variable {c c' : Configuration} {d : Document} {target : Target} {part field : Text}
  {index : Nat} {a a' : Artifact}

/-- No two artifacts have one name and version. -/
def Distinct (c : Configuration) : Prop := (c.artifacts.map Artifact.key).Nodup

instance (c : Configuration) : Decidable c.Distinct :=
  inferInstanceAs (Decidable (List.Nodup _))

theorem problems_checkDistinct_eq_nil_iff (d : Document) (c : Configuration) :
    (checkDistinct d c).problems = [] ↔ c.Distinct := by
  have hnone : firstDuplicate? [] c.artifacts = none ↔ c.Distinct :=
    firstDuplicate?_eq_none_iff.trans (and_iff_left fun _ _ => List.not_mem_nil)
  unfold checkDistinct
  rw [← hnone]
  cases firstDuplicate? [] c.artifacts with
  | none => exact iff_of_true rfl rfl
  | some a => exact iff_of_false (by simp [Checked.wrong, Checked.problems]) (by simp)

/-! ### Artifacts that change -/

theorem distinct_project_iff (h : c.Distinct) {a? : Option Artifact} :
    Distinct { c with project? := a? } ↔
      ¬∃ a ∈ a?, a.key ∈ c.dependencies.map Artifact.key := by
  have hdependencies : (c.dependencies.map Artifact.key).Nodup := by
    unfold Distinct artifacts at h
    rw [List.map_append] at h
    exact (List.nodup_append.1 h).2.1
  cases a? with
  | none => exact iff_of_true hdependencies (by simp)
  | some a =>
    show (List.map Artifact.key (a :: c.dependencies)).Nodup ↔ _
    rw [List.map_cons, List.nodup_cons, and_iff_left hdependencies]
    simp

/-- The artifacts of the configuration but the dependency at an index. -/
def others (c : Configuration) (index : Nat) : List Artifact :=
  c.project?.toList ++ c.dependencies.eraseIdx index

theorem artifacts_set_perm (hlt : index < c.dependencies.length) (a' : Artifact) :
    (artifacts { c with dependencies := c.dependencies.set index a' }).Perm
      (a' :: c.others index) := by
  unfold artifacts others
  dsimp only
  rw [List.set_eq_take_append_cons_drop, if_pos hlt, List.eraseIdx_eq_take_drop_succ,
    ← List.append_assoc, ← List.append_assoc]
  exact List.perm_middle

theorem distinct_dependency_iff (h : c.Distinct) (ha : c.dependencies[index]? = some a) :
    Distinct { c with dependencies := c.dependencies.set index a' } ↔
      a'.key ∉ (c.others index).map Artifact.key := by
  obtain ⟨hlt, hget⟩ := List.getElem?_eq_some_iff.1 ha
  -- The other artifacts are distinct, since they were so together with the old one.
  have hothers : ((c.others index).map Artifact.key).Nodup := by
    have hold := artifacts_set_perm (c := c) hlt c.dependencies[index]
    rw [List.set_getElem_self] at hold
    have hnodup := (hold.map Artifact.key).nodup_iff.1 h
    rw [List.map_cons, List.nodup_cons] at hnodup
    exact hnodup.2
  unfold Distinct
  rw [((artifacts_set_perm hlt a').map Artifact.key).nodup_iff, List.map_cons, List.nodup_cons,
    and_iff_left hothers]

/-! ### Values that are valid -/

theorem noField_ne_valid {α : Type} {x : α} : (noField field : Checked α) ≠ .valid x :=
  fun h => Checked.wrong_ne_valid (Checked.under_eq_valid.1 h)

/-- A value that is put where no artifact is. -/
theorem artifacts_of_map {α : Type} {x : Checked α} {f : α → Configuration}
    (h : x.map f = .valid c') (hf : ∀ a, (f a).artifacts = c.artifacts) :
    c'.artifacts = c.artifacts := by
  obtain ⟨a, -, rfl⟩ := Checked.map_eq_valid.1 h
  exact hf a

/-- A valid value of a field of the configuration changes the artifacts only if it is one of the
two fields that have them. -/
theorem of_assignField_eq_valid (h : c.assignField field d = .valid c') :
    (field ≠ "project" ∧ field ≠ "dependencies" ∧ c'.artifacts = c.artifacts) ∨
    (field = "project" ∧ ∃ a?, d.checkOption Artifact.ofDocument = .valid a? ∧
      c' = { c with project? := a? }) ∨
    (field = "dependencies" ∧ ∃ as, d.checkListOf Artifact.ofDocument = .valid as ∧
      c' = { c with dependencies := as }) := by
  unfold assignField at h
  split_ifs at h with hconfig hproject hdependencies
  · exact .inl ⟨by rw [hconfig]; decide, by rw [hconfig]; decide,
      artifacts_of_map h fun _ => rfl⟩
  · obtain ⟨a?, ha, rfl⟩ := Checked.map_eq_valid.1 h
    exact .inr (.inl ⟨hproject, a?, Checked.under_eq_valid.1 ha, rfl⟩)
  · obtain ⟨as, has, rfl⟩ := Checked.map_eq_valid.1 h
    exact .inr (.inr ⟨hdependencies, as, Checked.under_eq_valid.1 has, rfl⟩)
  iterate 5 exact .inl ⟨hproject, hdependencies, artifacts_of_map h fun _ => rfl⟩
  · exact absurd h noField_ne_valid

/-- A valid value of a field of a part changes the artifacts only if the part is one of them. -/
theorem of_assignNested_eq_valid (h : c.assignNested part index field d = .valid c') :
    ((part = "project" → c.project? = none) ∧
      (part = "dependencies" → c.dependencies[index]? = none) ∧ c'.artifacts = c.artifacts) ∨
    (part = "project" ∧ ∃ a a', c.project? = some a ∧ a.assign field d = .valid a' ∧
      c' = { c with project? := some a' }) ∨
    (part = "dependencies" ∧ ∃ a a', c.dependencies[index]? = some a ∧
      a.assign field d = .valid a' ∧
      c' = { c with dependencies := c.dependencies.set index a' }) := by
  unfold assignNested at h
  split_ifs at h with hconfig _ hproject hdependencies
  · refine .inl ⟨fun hpart => ?_, fun hpart => ?_, artifacts_of_map h fun _ => rfl⟩
    · exact absurd (hconfig.symm.trans hpart) (by decide)
    · exact absurd (hconfig.symm.trans hpart) (by decide)
  · exact absurd h noField_ne_valid
  · obtain ⟨a?, ha, rfl⟩ := Checked.map_eq_valid.1 h
    unfold assignPart at ha
    cases hold : c.project? with
    | none =>
      rw [hold] at ha
      obtain rfl := Checked.valid.inj ha
      refine .inl ⟨fun _ => rfl, fun hpart => ?_, by rw [artifacts, artifacts, hold]⟩
      exact absurd (hproject.symm.trans hpart) (by decide)
    | some a =>
      rw [hold] at ha
      obtain ⟨a', ha', rfl⟩ := Checked.map_eq_valid.1 ha
      exact .inr (.inl ⟨hproject, a, a', rfl, ha', rfl⟩)
  · obtain ⟨as, has, rfl⟩ := Checked.map_eq_valid.1 h
    unfold assignDependency at has
    cases hold : c.dependencies[index]? with
    | none =>
      rw [hold] at has
      obtain rfl := Checked.valid.inj has
      exact .inl ⟨fun hpart => absurd hpart hproject, fun _ => rfl, rfl⟩
    | some a =>
      rw [hold] at has
      obtain ⟨a', ha', rfl⟩ := Checked.map_eq_valid.1 has
      exact .inr (.inr ⟨hdependencies, a, a', rfl, ha', rfl⟩)
  iterate 2
    exact .inl ⟨fun hpart => absurd hpart hproject, fun hpart => absurd hpart hdependencies,
      artifacts_of_map h fun _ => rfl⟩
  · exact absurd h noField_ne_valid

/-! ### Assignments that repeat an artifact -/

/-- The value is valid and gives an artifact the name and version of another one: it is one of the
project or of the list of dependencies, or of a field of one of these artifacts. -/
def Repeats (c : Configuration) : Target → Document → Prop
  | .field name, d =>
    (name = "project" ∧ ∃ a? ∈ (d.checkOption Artifact.ofDocument).value?, ∃ a ∈ a?,
      a.key ∈ c.dependencies.map Artifact.key) ∨
    (name = "dependencies" ∧ ∃ as ∈ (d.checkListOf Artifact.ofDocument).value?,
      ¬ ((c.project?.toList ++ as).map Artifact.key).Nodup)
  | .nested part index field, d =>
    (part = "project" ∧ ∃ a ∈ c.project?, ∃ a' ∈ (a.assign field d).value?,
      a'.key ∈ c.dependencies.map Artifact.key) ∨
    (part = "dependencies" ∧ ∃ a ∈ c.dependencies[index]?, ∃ a' ∈ (a.assign field d).value?,
      a'.key ∈ (c.others index).map Artifact.key)

instance (c : Configuration) (target : Target) (d : Document) : Decidable (c.Repeats target d) :=
  match target with
  | .field _ => inferInstanceAs (Decidable (_ ∨ _))
  | .nested _ _ _ => inferInstanceAs (Decidable (_ ∨ _))

theorem distinct_of_artifacts_eq (h : c.Distinct) (heq : c'.artifacts = c.artifacts) :
    c'.Distinct := by
  unfold Distinct
  rw [heq]
  exact h

/-- After a valid value of a field of the configuration the artifacts are distinct exactly if it
does not repeat one. -/
theorem distinct_assignField_iff (h : c.Distinct) (hvalid : c.assignField field d = .valid c') :
    c'.Distinct ↔ ¬ c.Repeats (.field field) d := by
  rcases of_assignField_eq_valid hvalid with ⟨hproject, hdependencies, heq⟩ |
    ⟨rfl, a?, ha, rfl⟩ | ⟨rfl, as, has, rfl⟩
  · refine iff_of_true (distinct_of_artifacts_eq h heq) ?_
    rintro (⟨hname, -⟩ | ⟨hname, -⟩)
    · exact hproject hname
    · exact hdependencies hname
  · rw [distinct_project_iff h]
    have hother : ("project" : Text) ≠ "dependencies" := by decide
    simp [Repeats, ha, Checked.value?, hother]
  · have hother : ("dependencies" : Text) ≠ "project" := by decide
    simp [Repeats, has, Checked.value?, hother, Distinct, artifacts]

/-- After a valid value of a field of a part the artifacts are distinct exactly if it does not
repeat one. -/
theorem distinct_assignNested_iff (h : c.Distinct)
    (hvalid : c.assignNested part index field d = .valid c') :
    c'.Distinct ↔ ¬ c.Repeats (.nested part index field) d := by
  rcases of_assignNested_eq_valid hvalid with ⟨hproject, hdependencies, heq⟩ |
    ⟨rfl, a, a', ha, ha', rfl⟩ | ⟨rfl, a, a', ha, ha', rfl⟩
  · refine iff_of_true (distinct_of_artifacts_eq h heq) ?_
    rintro (⟨hname, a, ha, -⟩ | ⟨hname, a, ha, -⟩)
    · simp [hproject hname] at ha
    · simp [hdependencies hname] at ha
  · rw [distinct_project_iff h]
    have hother : ("project" : Text) ≠ "dependencies" := by decide
    simp [Repeats, ha, ha', Checked.value?, hother]
  · rw [distinct_dependency_iff h ha]
    have hother : ("dependencies" : Text) ≠ "project" := by decide
    simp [Repeats, ha, ha', Checked.value?, hother]

/-- Only a valid value repeats. -/
theorem exists_of_repeats_field (h : c.Repeats (.field field) d) :
    ∃ c', c.assignField field d = .valid c' := by
  unfold assignField
  rcases h with ⟨rfl, a?, ha, -⟩ | ⟨rfl, as, has, -⟩
  · rw [if_neg (by decide), if_pos rfl, eq_valid_of_value? ha]
    exact ⟨_, rfl⟩
  · rw [if_neg (by decide), if_neg (by decide), if_pos rfl, eq_valid_of_value? has]
    exact ⟨_, rfl⟩

theorem exists_of_repeats_nested (h : c.Repeats (.nested part index field) d) :
    ∃ c', c.assignNested part index field d = .valid c' := by
  unfold assignNested
  rcases h with ⟨rfl, a, ha, a', ha', -⟩ | ⟨rfl, a, ha, a', ha', -⟩
  · rw [if_neg (by decide), if_pos rfl, Option.mem_def.1 ha, assignPart, eq_valid_of_value? ha']
    exact ⟨_, rfl⟩
  · rw [if_neg (by decide), if_neg (by decide), if_pos rfl, assignDependency,
      Option.mem_def.1 ha]
    dsimp only
    rw [eq_valid_of_value? ha']
    exact ⟨_, rfl⟩

/-! ### A single assignment -/

/-- The target is a field of the configuration itself. -/
def Target.isOwn : Target → Bool
  | .field _ => true
  | .nested _ _ _ => false

/-- An assignment is made if its value is valid, and only then. The rule on artifacts that occur
twice is looked at after that, and only for a field of the configuration itself. -/
theorem assign_cases (h : c.Distinct) (target : Target) (d : Document) :
    (¬ c.Repeats target d ∧ ∃ problems, c.assign target d = (c, problems)) ∨
    ∃ c', (c'.Distinct ↔ ¬ c.Repeats target d) ∧ c.assign target d =
      (c', if target.isOwn then (checkDistinct d c').problems else []) := by
  cases target with
  | field name =>
    cases hvalid : c.assignField name d with
    | valid c' =>
      exact .inr ⟨c', distinct_assignField_iff h hvalid, by simp only [assign, hvalid]; rfl⟩
    | invalid problems =>
      refine .inl ⟨fun hrepeats => ?_, problems, by simp only [assign, hvalid]⟩
      obtain ⟨c', hc'⟩ := exists_of_repeats_field hrepeats
      simp [hvalid] at hc'
  | nested part index field =>
    cases hvalid : c.assignNested part index field d with
    | valid c' =>
      exact .inr ⟨c', distinct_assignNested_iff h hvalid, by simp only [assign, hvalid]; rfl⟩
    | invalid problems =>
      refine .inl ⟨fun hrepeats => ?_, problems, by simp only [assign, hvalid]⟩
      obtain ⟨c', hc'⟩ := exists_of_repeats_nested hrepeats
      simp [hvalid] at hc'

/-- An assignment keeps the artifacts distinct exactly if it does not repeat one. -/
theorem distinct_assign_iff (h : c.Distinct) :
    (c.assign target d).1.Distinct ↔ ¬ c.Repeats target d := by
  rcases assign_cases h target d with ⟨hnot, problems, heq⟩ | ⟨c', hiff, heq⟩
  · rw [heq]
    exact iff_of_true h hnot
  · rw [heq]
    exact hiff

/-- An assignment that is rejected leaves the configuration as it was, unless it repeats. -/
theorem assign_of_rejected (h : c.Distinct) (hrejected : (c.assign target d).2 ≠ [])
    (hnot : ¬ c.Repeats target d) : (c.assign target d).1 = c := by
  rcases assign_cases h target d with ⟨-, problems, heq⟩ | ⟨c', hiff, heq⟩
  · rw [heq]
  · have hnone := (problems_checkDistinct_eq_nil_iff d c').2 (hiff.2 hnot)
    rw [heq, hnone, ite_self] at hrejected
    exact absurd rfl hrejected

/-- An assignment that repeats is made; it is rejected nevertheless if it is one to a field of the
configuration itself. -/
theorem assign_of_repeats (h : c.Distinct) (hrepeats : c.Repeats target d) :
    ¬ (c.assign target d).1.Distinct ∧ ((c.assign target d).2 ≠ [] ↔ target.isOwn = true) := by
  rcases assign_cases h target d with ⟨hnot, -⟩ | ⟨c', hiff, heq⟩
  · exact absurd hrepeats hnot
  · have hdouble : ¬ c'.Distinct := fun hdistinct => hiff.1 hdistinct hrepeats
    rw [heq]
    refine ⟨hdouble, ?_⟩
    cases target.isOwn with
    | true => exact iff_of_true (mt (problems_checkDistinct_eq_nil_iff d c').1 hdouble) rfl
    | false => exact iff_of_false (fun hne => hne rfl) Bool.false_ne_true

/-! ### Sessions -/

/-- The configuration after assignments one after another, accepted or rejected. -/
def run (c : Configuration) (assignments : List (Target × Document)) : Configuration :=
  assignments.foldl (fun c p => (c.assign p.1 p.2).1) c

@[simp]
theorem run_nil (c : Configuration) : c.run [] = c := rfl

@[simp]
theorem run_concat (c : Configuration) (before : List (Target × Document))
    (p : Target × Document) : c.run (before ++ [p]) = ((c.run before).assign p.1 p.2).1 := by
  unfold run
  rw [List.foldl_append]
  rfl

variable {assignments before : List (Target × Document)}

/-- No assignment of the list repeats an artifact when it is made. -/
def NeverRepeats (c : Configuration) (assignments : List (Target × Document)) : Prop :=
  ∀ before target d, before ++ [(target, d)] <+: assignments → ¬ (c.run before).Repeats target d

theorem distinct_run (h : c.Distinct) (hnever : c.NeverRepeats assignments)
    (hbefore : before <+: assignments) : (c.run before).Distinct := by
  induction before using List.reverseRecOn with
  | nil => exact h
  | append_singleton before p ih =>
    obtain ⟨target, d⟩ := p
    have hbegun := ih ((List.prefix_append before [(target, d)]).trans hbefore)
    rw [run_concat]
    exact (distinct_assign_iff hbegun).2 (hnever before target d hbefore)

/-- **Assignments** to a configuration that validation accepts. In all states the artifacts are
distinct exactly if no assignment repeats one; and then every assignment that is rejected leaves all
fields as they were. An assignment that repeats an artifact where they were distinct is made, and is
rejected only if it is one to a field of the configuration itself. -/
theorem distinct_after_assignments_iff {d₀ : Document} (h : ofDocument d₀ = .valid c)
    (assignments : List (Target × Document)) :
    ((∀ before, before <+: assignments → (c.run before).Distinct) ↔
      c.NeverRepeats assignments) ∧
    (c.NeverRepeats assignments → ∀ before target d, before ++ [(target, d)] <+: assignments →
      ((c.run before).assign target d).2 ≠ [] →
      c.run (before ++ [(target, d)]) = c.run before) ∧
    ∀ before target d, (c.run before).Distinct → (c.run before).Repeats target d →
      ¬ (c.run (before ++ [(target, d)])).Distinct ∧
        (((c.run before).assign target d).2 ≠ [] ↔ target.isOwn = true) := by
  have hdistinct : c.Distinct := nodup_of_ofDocument h
  refine ⟨⟨fun hall before target d hbefore => ?_,
      fun hnever before => distinct_run hdistinct hnever⟩,
    fun hnever before target d hbefore hrejected => ?_, fun before target d hold hrepeats => ?_⟩
  · have hold := hall before ((List.prefix_append before _).trans hbefore)
    have hnew := hall _ hbefore
    rw [run_concat] at hnew
    exact (distinct_assign_iff hold).1 hnew
  · rw [run_concat]
    have hold := distinct_run hdistinct hnever ((List.prefix_append before _).trans hbefore)
    exact assign_of_rejected hold hrejected (hnever before target d hbefore)
  · rw [run_concat]
    exact assign_of_repeats hold hrepeats

namespace Sample

/-- The document of an artifact, by its name and version. -/
def artifact (name version : Text) : Document :=
  .mapping [(.text "group_id", .text "g"), (.text "artifact_id", .text name),
    (.text "version", .text version), (.text "file", .text "/i")]

/-- The document of version 1 of two dependencies. -/
def dependenciesDocument : Document :=
  .mapping [(.text "dependencies", .list [artifact "a" "1", artifact "b" "1"]),
    (.text "output_directory", .text "/o")]

/-- The configuration of that document. -/
def twoDependencies : Configuration where
  version := firstVersion
  project? := none
  dependencies := [⟨"g", "a", "1", archiveType, "/i"⟩, ⟨"g", "b", "1", archiveType, "/i"⟩]
  outputDirectory := "/o"
  compressionLevel := defaultLevel
  strictCreate := false
  minify? := none
  modify? := none

/-- A version that is accepted, and dependencies that are not. -/
def session : List (Target × Document) :=
  [(.nested "dependencies" 1 "version", .text "2"), (.field "dependencies", .text "a")]

end Sample

theorem distinct_after_session :
    (∀ before, before <+: Sample.session → (Sample.twoDependencies.run before).Distinct) ∧
      Sample.twoDependencies.run Sample.session =
        Sample.twoDependencies.run [(.nested "dependencies" 1 "version", .text "2")] := by
  have hvalid : ofDocument Sample.dependenciesDocument = .valid Sample.twoDependencies :=
    eq_valid_of_value? (by decide +kernel)
  have hnever : Sample.twoDependencies.NeverRepeats Sample.session := by
    intro before target d hbefore
    rcases before with _ | ⟨first, _ | ⟨second, rest⟩⟩
    · obtain ⟨rfl, rfl⟩ : target = _ ∧ d = _ := by simpa [Sample.session] using hbefore
      decide +kernel
    · obtain ⟨rfl, rfl, rfl⟩ : first = _ ∧ target = _ ∧ d = _ := by
        simpa [Sample.session] using hbefore
      decide +kernel
    · simp [Sample.session] at hbefore
  obtain ⟨hdistinct, hrejected, -⟩ := distinct_after_assignments_iff hvalid Sample.session
  refine ⟨hdistinct.2 hnever, ?_⟩
  exact hrejected hnever [(.nested "dependencies" 1 "version", .text "2")] _ _ List.prefix_rfl
    (by decide +kernel)

/-- Dependencies that repeat an artifact are rejected and stay; a version that does so is
accepted. -/
theorem assignments_may_repeat :
    (¬ ∀ (d₀ : Document) (c : Configuration) (target : Target) (d : Document),
      ofDocument d₀ = .valid c → (c.assign target d).2 ≠ [] → (c.assign target d).1 = c) ∧
    ¬ ∀ (d₀ : Document) (c : Configuration) (target : Target) (d : Document),
      ofDocument d₀ = .valid c → (c.assign target d).2 = [] → (c.assign target d).1.Distinct := by
  have hvalid : ofDocument Sample.dependenciesDocument = .valid Sample.twoDependencies :=
    eq_valid_of_value? (by decide +kernel)
  constructor
  · intro h
    have hkept := h _ _ (.field "dependencies")
      (.list [Sample.artifact "a" "1", Sample.artifact "a" "1"]) hvalid (by decide +kernel)
    revert hkept
    decide +kernel
  · intro h
    have hdistinct := h _ _ (.nested "dependencies" 1 "artifact_id") (.text "a") hvalid
      (by decide +kernel)
    revert hdistinct
    decide +kernel

end Configuration

end Jarsmith

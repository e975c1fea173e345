import Mathlib.Data.List.Nodup
import Jarsmith.Configuration.Validation

/-!
# The names of output files

The name of an output file is the artifact's name and version joined by a dash, with a mark at the
end if a task is for the artifact. Joining forgets where the name ends and the version begins, so
that two artifacts may have one output file although they differ in name and version: `Collide`
lists the ways, and `nodup_outputNames_iff` says that there are no others.
-/

namespace Jarsmith

namespace Configuration

/-- Some task of the configuration is for the artifact. -/
def repackages (c : Configuration) (a : Artifact) : Bool :=
  c.minify?.any (·.accepts a) || c.modify?.any (·.accepts a)

/-- The name of the output file of an artifact. -/
def outputName (c : Configuration) (a : Artifact) : Text :=
  if c.repackages a then a.repackagedName else a.copyName

/-- What stands at the end of the version in the name of the output of a repackaged artifact. -/
def repackagedMark : Text := "-repackaged"

/-- The version as it stands in the name of the output file. -/
def outputVersion (c : Configuration) (a : Artifact) : Text :=
  if c.repackages a then a.version ++ repackagedMark else a.version

theorem outputName_eq (c : Configuration) (a : Artifact) :
    c.outputName a = (a.artifactId ++ 0x2D :: c.outputVersion a) ++ 0x2E :: archiveType := by
  unfold outputName outputVersion
  split_ifs
  · have hmark : ("-repackaged." : Text) = repackagedMark ++ [0x2E] := by decide
    rw [Artifact.repackagedName, hmark]
    simp [List.append_assoc]
  · simp [Artifact.copyName, List.append_assoc]

/-! ### Texts joined by a dash -/

/-- The dash between the first and the second text of `(t, u)` stands inside of the first text of
`(t', u')`. -/
def Shifted (t u t' u' : Text) : Prop :=
  ∃ mid, t' = t ++ 0x2D :: mid ∧ u = mid ++ 0x2D :: u'

theorem joined_eq_of_shifted {t u t' u' : Text} (h : Shifted t u t' u') :
    t ++ 0x2D :: u = t' ++ 0x2D :: u' := by
  obtain ⟨mid, rfl, rfl⟩ := h
  simp [List.append_assoc]

/-- Two pairs of texts are joined to one text exactly if they are equal or one is shifted against
the other. -/
theorem joined_eq_iff (t u t' u' : Text) :
    t ++ 0x2D :: u = t' ++ 0x2D :: u' ↔
      (t = t' ∧ u = u') ∨ Shifted t u t' u' ∨ Shifted t' u' t u := by
  constructor
  · intro h
    -- One of the first texts is longer by `rest`, which then begins with the other dash.
    rcases List.append_eq_append_iff.1 h with ⟨rest, ht, hu⟩ | ⟨rest, ht, hu⟩
    · cases rest with
      | nil =>
        rw [List.append_nil] at ht
        exact Or.inl ⟨ht.symm, by simpa using hu⟩
      | cons c mid =>
        obtain ⟨rfl, rfl⟩ : 0x2D = c ∧ u = mid ++ 0x2D :: u' := by simpa using hu
        exact Or.inr (Or.inl ⟨mid, ht, rfl⟩)
    · cases rest with
      | nil =>
        rw [List.append_nil] at ht
        exact Or.inl ⟨ht, by simpa using hu.symm⟩
      | cons c mid =>
        obtain ⟨rfl, rfl⟩ : 0x2D = c ∧ u' = mid ++ 0x2D :: u := by simpa using hu
        exact Or.inr (Or.inr ⟨mid, ht, rfl⟩)
  · rintro (⟨rfl, rfl⟩ | h | h)
    · rfl
    · exact joined_eq_of_shifted h
    · exact (joined_eq_of_shifted h).symm

/-! ### Artifacts with one output -/

/-- The output of the repackaged artifact `a` has the name of the copy of `b`, an artifact of the
same name whose version has the mark of a repackaged one. -/
def Mimics (c : Configuration) (a b : Artifact) : Prop :=
  a.artifactId = b.artifactId ∧ c.repackages a = true ∧ c.repackages b = false ∧
    b.version = a.version ++ repackagedMark

/-- How two artifacts of different name or version come to have one output name. -/
def Collide (c : Configuration) (a b : Artifact) : Prop :=
  Shifted a.artifactId (c.outputVersion a) b.artifactId (c.outputVersion b) ∨
    Shifted b.artifactId (c.outputVersion b) a.artifactId (c.outputVersion a) ∨
    c.Mimics a b ∨ c.Mimics b a

theorem outputVersion_eq_iff (c : Configuration) {a b : Artifact}
    (hid : a.artifactId = b.artifactId) (hne : a.version ≠ b.version) :
    c.outputVersion a = c.outputVersion b ↔ c.Mimics a b ∨ c.Mimics b a := by
  unfold outputVersion Mimics
  cases ha : c.repackages a <;> cases hb : c.repackages b
  · simpa using hne
  · simp [hid, eq_comm]
  · simp [hid, eq_comm]
  · simpa using hne

/-- Artifacts that differ in name or version have one output name exactly if they collide. -/
theorem outputName_eq_iff (c : Configuration) {a b : Artifact}
    (h : (a.artifactId, a.version) ≠ (b.artifactId, b.version)) :
    c.outputName a = c.outputName b ↔ c.Collide a b := by
  rw [outputName_eq, outputName_eq, List.append_left_inj, joined_eq_iff, Collide]
  -- What is left is the way in which neither name is shifted against the other.
  have hsame : (a.artifactId = b.artifactId ∧ c.outputVersion a = c.outputVersion b) ↔
      (c.Mimics a b ∨ c.Mimics b a) := by
    constructor
    · rintro ⟨hid, hversion⟩
      have hne : a.version ≠ b.version := fun hv => h (Prod.ext hid hv)
      exact (c.outputVersion_eq_iff hid hne).1 hversion
    · intro hmimics
      have hid : a.artifactId = b.artifactId := hmimics.elim (·.1) (·.1.symm)
      have hne : a.version ≠ b.version := fun hv => h (Prod.ext hid hv)
      exact ⟨hid, (c.outputVersion_eq_iff hid hne).2 hmimics⟩
  rw [hsame]
  tauto

/-! ### What validation rules out -/

theorem eq_valid_of_value? {α : Type} {x : Checked α} {a : α} (h : x.value? = some a) :
    x = .valid a := by
  cases x with
  | valid b => rw [Option.some.inj h]
  | invalid problems => simp [Checked.value?] at h

/-- There is no duplicate exactly if no two artifacts have one name and version, and none has those
of one that was seen. -/
theorem firstDuplicate?_eq_none_iff {as : List Artifact} {seen : List (Text × Text)} :
    firstDuplicate? seen as = none ↔
      (as.map fun a => (a.artifactId, a.version)).Nodup ∧
        ∀ a ∈ as, (a.artifactId, a.version) ∉ seen := by
  induction as generalizing seen with
  | nil => simp [firstDuplicate?]
  | cons a as ih =>
    unfold firstDuplicate?
    rw [List.map_cons, List.nodup_cons, List.forall_mem_cons, List.mem_map]
    split_ifs with hseen
    · exact iff_of_false (by simp) fun h => h.2.1 hseen
    · rw [ih]
      constructor
      · rintro ⟨hnodup, hnot⟩
        refine ⟨⟨?_, hnodup⟩, hseen, fun b hb hmem => hnot b hb (List.mem_cons_of_mem _ hmem)⟩
        rintro ⟨b, hb, heq⟩
        exact hnot b hb (heq ▸ List.mem_cons_self)
      · rintro ⟨⟨hfirst, hnodup⟩, -, hnot⟩
        refine ⟨hnodup, fun b hb hmem => ?_⟩
        rcases List.mem_cons.1 hmem with heq | hmem
        · exact hfirst ⟨b, hb, heq⟩
        · exact hnot b hb hmem

/-- No two artifacts of a configuration that validation accepts have one name and version. -/
theorem nodup_of_ofDocument {d : Document} {c : Configuration} (h : ofDocument d = .valid c) :
    (c.artifacts.map fun a => (a.artifactId, a.version)).Nodup := by
  unfold ofDocument at h
  cases hfields : checkFields d with
  | invalid problems => simp [hfields, Checked.andThen] at h
  | valid c' =>
    rw [hfields] at h
    simp only [Checked.andThen, checkDistinct] at h
    split at h
    · next hnone =>
      obtain rfl : c' = c := by simpa using h
      exact (firstDuplicate?_eq_none_iff.1 hnone).1
    · simp [Checked.wrong] at h

/-- The classpath has its artifacts from the configuration, each as often as there. -/
theorem classpath_perm (c : Configuration) :
    c.classpath.Perm (c.artifacts.filter Artifact.isArchive) := by
  unfold classpath artifacts sortedDependencies
  exact (List.Perm.append_left _ (List.mergeSort_perm _ _)).filter _

theorem nodup_classpath_of_ofDocument {d : Document} {c : Configuration}
    (h : ofDocument d = .valid c) :
    (c.classpath.map fun a => (a.artifactId, a.version)).Nodup := by
  rw [(c.classpath_perm.map _).nodup_iff]
  exact (nodup_of_ofDocument h).sublist (List.filter_sublist.map _)

/-- In a configuration that validation accepts, the names of the output files are distinct exactly
if no two artifacts of the classpath collide. -/
theorem nodup_outputNames_iff {d : Document} {c : Configuration} (h : ofDocument d = .valid c) :
    (c.classpath.map c.outputName).Nodup ↔
      c.classpath.Pairwise fun a b => ¬ c.Collide a b := by
  have hdistinct := nodup_classpath_of_ofDocument h
  rw [List.nodup_iff_pairwise_ne, List.pairwise_map] at hdistinct ⊢
  constructor
  · intro hnames
    exact (hdistinct.and hnames).imp fun {a b} hab hcollide =>
      hab.2 ((c.outputName_eq_iff hab.1).2 hcollide)
  · intro hcollide
    exact (hdistinct.and hcollide).imp fun {a b} hab hname =>
      hab.2 ((c.outputName_eq_iff hab.1).1 hname)

end Configuration

end Jarsmith

import Jarsmith.Proofs.Build.Apart
import Jarsmith.Proofs.Build.Failure
import Jarsmith.Proofs.Session.Confined
import Jarsmith.Proofs.Text.Lines

/-!
# Where a build writes

A build, whatever comes of it, writes its outputs and the manifest and no other file, the log file
apart (`build_confined`). The paths of the outputs are those of their names in the output directory,
and the names are made of texts of the configuration. If such a text holds a slash then the output
has another place, which may be anywhere; if it holds a line feed then the manifest has a line more.
`outputs_confined` puts together what holds without them: exactly then the names are those of files
in a directory, and the manifest tells the elements by its lines.

Validation rules out neither (`outputs_may_leave_directory`).
-/

namespace Jarsmith

/-! ### The names of outputs -/

namespace Configuration

variable {c : Configuration} {a : Artifact}

/-- What is not in the endings of names is in a name exactly if it is in a text of the artifact. -/
theorem mem_outputName_iff {mark : CodePoint} (hmark : mark ∉ ("-repackaged.jar" : Text)) :
    mark ∈ c.outputName a ↔ mark ∈ a.artifactId ∨ mark ∈ a.version := by
  have hending : ("-repackaged.jar" : Text) = repackagedMark ++ 0x2E :: archiveType := by decide
  have hdash : mark ≠ 0x2D := by
    rintro rfl
    exact hmark (by decide)
  rw [hending, List.mem_append, not_or] at hmark
  have hversion : mark ∈ c.outputVersion a ↔ mark ∈ a.version := by
    unfold outputVersion
    split
    · rw [List.mem_append, or_iff_left hmark.1]
    · exact Iff.rfl
  rw [outputName_eq, List.mem_append, or_iff_left hmark.2, List.mem_append, List.mem_cons,
    or_iff_right hdash, hversion]

theorem isPart_outputName_iff :
    Path.IsPart (c.outputName a) ↔ Path.slash ∉ a.artifactId ∧ Path.slash ∉ a.version := by
  rw [← not_or, ← mem_outputName_iff (c := c) (by decide)]
  exact ⟨fun h => h.1, isPart_outputName⟩

end Configuration

namespace Build

variable {e : Setting} {request : Request} {assembly after : Assembly} {a : Artifact}
  {w w' : World}

/-! ### What is written -/

/-- The places of the outputs and of the manifest. -/
def Request.written (request : Request) (root : Place) : Set Place :=
  {p | p = request.manifest.landing root ∨
    ∃ a ∈ request.configuration.classpath, p = (request.output a).landing root}

theorem ArchiveOutput.execute_confined (h : assembly.Decided request) :
    (execute request assembly).Within e (World.Confined (request.written e.root)) := by
  have hR := World.Confined.framing e (request.written e.root)
  unfold execute
  dsimp only
  refine .bind hR (.report hR _ _ _) fun _ => ?_
  refine .bind hR (.makeDirectories_confined _) fun _ => ?_
  refine .bind hR (foldlM_within_of_decided hR h fun p hp next hnext => ?_) fun _ => ?_
  · have hplace : (request.output p.1).landing e.root ∈ request.written e.root :=
      Or.inr ⟨p.1, h.artifacts ▸ List.fst_mem_of_mem_zipIdx hp, rfl⟩
    unfold writeNext
    dsimp only
    refine .bind hR (.show hR _) fun _ => ?_
    refine .bind_of_outcome hR (.lift hR _) fun w plan? after _ hplan => ?_
    rw [Session.outcome_lift] at hplan
    rw [(outputName_eq hnext (Prod.ext_iff.1 hplan).1).1]
    refine .bind hR ?_ fun _ => .bind hR (.ask hR _) fun _ => .pure hR _
    exact writeOne_within_of_allowsFiles hR (World.Confined.allowsFiles e _) hplace _ _ _
  · exact .bind hR (.show hR _) fun _ => .bind hR (.report hR _ _ _) fun _ => .pure hR _

theorem ManifestOutput.execute_confined (request : Request) (assembly : Assembly) :
    (execute request assembly).Within e (World.Confined (request.written e.root)) := by
  have hR := World.Confined.framing e (request.written e.root)
  have hplace : request.manifest.landing e.root ∈ request.written e.root := Or.inl rfl
  unfold execute
  refine .bind hR ?_ fun path => ?_
  · exact writeManifest_within_of_allowsFiles hR (World.Confined.allowsFiles e _) _ hplace _
  · exact .bind hR (.show hR _) fun _ => .bind hR (.report hR _ _ _) fun _ => .pure hR _

/-- A build writes no other files, also if it fails. -/
theorem build_confined (request : Request) :
    (build request).Within e (World.Confined (request.written e.root)) := by
  have hR := World.Confined.framing e (request.written e.root)
  refine Pipeline.execute_within hR ?_
  rw [Pipeline.standard_eq_append, Pipeline.runSteps_append]
  refine .bind_of_outcome hR (Pipeline.runSteps_deciding_within hR _)
    fun w decided _ hw hdeciding => ?_
  have hdecided := (Pipeline.runSteps_deciding_eq_ok hw hdeciding).1
  refine Pipeline.runSteps_cons_within hR (ArchiveOutput.execute_confined hdecided)
    fun _ _ _ _ _ => ?_
  exact Pipeline.runSteps_cons_within hR (ManifestOutput.execute_confined _ _)
    fun _ _ _ _ _ => .pure hR _

/-- An output of a plain name is in the output directory. -/
theorem landing_output (root : Place) (hid : Path.slash ∉ a.artifactId)
    (hversion : Path.slash ∉ a.version) : (request.output a).landing root =
      request.outputDirectory.landing root ++ [request.configuration.outputName a] :=
  Path.landing_child _ _ (Configuration.isPart_outputName_iff.2 ⟨hid, hversion⟩)

/-! ### The lines of the manifest -/

/-- The names of outputs are the lines of the text that they are joined to exactly if no text of an
artifact has a line feed. -/
theorem splitOn_joinWith_outputNames_iff {c : Configuration} {as : List Artifact} (h : as ≠ []) :
    Text.splitOn 0x0A (Text.joinWith [0x0A] (as.map c.outputName)) = as.map c.outputName ↔
      ∀ a ∈ as, 0x0A ∉ a.artifactId ∧ 0x0A ∉ a.version := by
  have hfeed (a : Artifact) : 0x0A ∉ c.outputName a ↔ 0x0A ∉ a.artifactId ∧ 0x0A ∉ a.version := by
    rw [← not_or, Configuration.mem_outputName_iff (by decide)]
  rw [Text.splitOn_joinWith_eq_iff (mt List.map_eq_nil_iff.1 h), List.forall_mem_map]
  exact forall₂_congr fun a _ => hfeed a

/-- **Where the outputs of a build are**, whether it succeeds or fails: a file that is new or has
other bytes is the manifest or the log file, or it is the output of an artifact of the classpath.
The name of an output is the name of a file exactly if no slash is in its texts, and then the output
is directly in the output directory. After a build that succeeds the elements are the lines of the
manifest exactly if no line feed is in their texts. -/
theorem outputs_confined (request : Request) :
    (∀ w result w', w.LogReady → (build request).outcome w = (result, w') →
      ∀ p bytes, w'.files.node? p = some (.file bytes) →
        w.files.node? p = some (.file bytes) ∨ w.console.logFile? = some p ∨
        p = request.manifest.landing w.files.workingDirectory ∨
        ∃ a ∈ request.configuration.classpath,
          p = (request.output a).landing w.files.workingDirectory) ∧
    (∀ a, Path.IsPart (request.configuration.outputName a) ↔
      Path.slash ∉ a.artifactId ∧ Path.slash ∉ a.version) ∧
    (∀ a root, Path.slash ∉ a.artifactId → Path.slash ∉ a.version →
      (request.output a).landing root =
        request.outputDirectory.landing root ++ [request.configuration.outputName a]) ∧
    (∀ w after w', w.LogReady → (build request).outcome w = (.ok after, w') →
      w.console.logFile? ≠ some (request.manifest.landing w.files.workingDirectory) →
      request.configuration.classpath ≠ [] →
      ∃ text bytes, Utf8.encode? text = some bytes ∧
        w'.files.read request.manifest = .ok bytes ∧
        (text.splitOn 0x0A = after.elements ↔
          ∀ a ∈ request.configuration.classpath, 0x0A ∉ a.artifactId ∧ 0x0A ∉ a.version)) := by
  refine ⟨fun w result w' hlog hrun p bytes hp => ?_,
    fun a => Configuration.isPart_outputName_iff, fun a root => landing_output root,
    fun w after w' hlog hrun hopen hne => ?_⟩
  · have hw : w.Ready w.setting := ⟨rfl, hlog⟩
    have hconfined := (build_confined request).relates hw hrun
    by_contra hother
    rw [not_or, not_or] at hother
    obtain ⟨hchanged, hlog, hplace⟩ := hother
    exact hchanged (hconfined.file p bytes hplace hlog hp)
  · obtain ⟨helements, hmanifest⟩ := elements_of_build hlog hrun
    obtain ⟨bytes, hbytes, hread⟩ := hmanifest hopen
    refine ⟨_, bytes, hbytes, hread, ?_⟩
    rw [helements]
    exact splitOn_joinWith_outputNames_iff hne

/-- The document of a project alone, by its name, that is copied. -/
def Sample.aloneDocument (name : Text) : Document :=
  .mapping [(.text "project", .mapping [(.text "group_id", .text "g"),
    (.text "artifact_id", .text name), (.text "version", .text "1"), (.text "file", .text "/i")]),
    (.text "output_directory", .text "/o")]

/-- The configuration of that document. -/
def Sample.alone (name : Text) : Configuration where
  version := Configuration.firstVersion
  project? := some ⟨"g", name, "1", archiveType, "/i"⟩
  dependencies := []
  outputDirectory := "/o"
  compressionLevel := Configuration.defaultLevel
  strictCreate := false
  minify? := none
  modify? := none

/-- The copy of a project of a plain name is in the output directory, and is the one line of the
manifest. -/
theorem outputs_confined_of_plain_name :
    ∃ after w', (build ⟨Sample.alone "a", "/o", none⟩).outcome (Sample.world "/i" [0x50]) =
        (.ok after, w') ∧
      (∀ p bytes, w'.files.node? p = some (.file bytes) →
        (Sample.world "/i" [0x50]).files.node? p = some (.file bytes) ∨
          p = ["o", "classpath.txt"] ∨ p = ["o", "a-1.jar"]) ∧
      ∃ text bytes, Utf8.encode? text = some bytes ∧
        w'.files.read "/o/classpath.txt" = .ok bytes ∧ text.splitOn 0x0A = after.elements := by
  obtain ⟨hfiles, -, -, hmanifest⟩ := outputs_confined ⟨Sample.alone "a", "/o", none⟩
  obtain ⟨after, w', hrun⟩ := Session.exists_outcome_eq_ok
    (s := build ⟨Sample.alone "a", "/o", none⟩) (w := Sample.world "/i" [0x50])
    (by decide +kernel)
  have hlog : (Sample.world "/i" [0x50]).LogReady := by
    intro p hp
    simp [Sample.world] at hp
  have hclasspath : (Sample.alone "a").classpath = [⟨"g", "a", "1", archiveType, "/i"⟩] := by
    decide +kernel
  have hplace : Request.manifest ⟨Sample.alone "a", "/o", none⟩ = "/o/classpath.txt" := by
    decide +kernel
  refine ⟨after, w', hrun, fun p bytes hp => ?_, ?_⟩
  · rcases hfiles _ _ _ hlog hrun p bytes hp with hold | hopen | hp | ⟨a, ha, hp⟩
    · exact .inl hold
    · simp [Sample.world] at hopen
    · rw [hplace] at hp
      exact .inr (.inl (hp.trans (by decide +kernel)))
    · obtain rfl := List.mem_singleton.1 (hclasspath ▸ ha)
      exact .inr (.inr (hp.trans (by decide +kernel)))
  · obtain ⟨text, bytes, htext, hread, hlines⟩ := hmanifest _ _ _ hlog hrun
      (by simp [Sample.world]) (by rw [hclasspath]; exact List.cons_ne_nil _ _)
    refine ⟨text, bytes, htext, hplace ▸ hread, hlines.2 fun a ha => ?_⟩
    obtain rfl := List.mem_singleton.1 (hclasspath ▸ ha)
    decide

/-- A name that goes up leaves the output directory, and one with a line feed makes two lines. -/
theorem outputs_may_leave_directory :
    (¬ ∀ (d : Document) (request : Request) (w w' : World) (after : Assembly),
      Configuration.ofDocument d = .valid request.configuration →
      request.configuration.classpath ≠ [] → w.console.logFile? = none →
      (build request).outcome w = (.ok after, w') →
      ∀ p bytes, w'.files.node? p = some (.file bytes) →
        w.files.node? p = some (.file bytes) ∨
          ∃ name, p = request.outputDirectory.landing w.files.workingDirectory ++ [name]) ∧
    ¬ ∀ (d : Document) (request : Request) (w w' : World) (after : Assembly) (text : Text)
      (bytes : Bytes), Configuration.ofDocument d = .valid request.configuration →
      request.configuration.classpath ≠ [] → w.console.logFile? = none →
      (build request).outcome w = (.ok after, w') → Utf8.encode? text = some bytes →
      w'.files.read request.manifest = .ok bytes → text.splitOn 0x0A = after.elements := by
  constructor
  · intro h
    obtain ⟨after, w', hrun⟩ := Session.exists_outcome_eq_ok
      (s := build ⟨Sample.alone "../a", "/o", none⟩) (w := Sample.world "/i" [0x50])
      (by decide +kernel)
    have hnew : w'.files.node? ["a-1.jar"] = some (.file [0x50]) := by
      rw [← congrArg (fun run => run.2.files.node? ["a-1.jar"]) hrun]
      decide +kernel
    have hinside := h (Sample.aloneDocument "../a") ⟨Sample.alone "../a", "/o", none⟩ _ w' after
      (Configuration.eq_valid_of_value? (by decide +kernel)) (by decide +kernel) rfl hrun _ _ hnew
    rcases hinside with hold | ⟨name, hname⟩
    · revert hold
      decide +kernel
    · have hdirectory : Path.landing
          (Sample.world "/i" [0x50]).files.workingDirectory "/o" = ["o"] := by decide +kernel
      rw [hdirectory] at hname
      simp at hname
  · intro h
    obtain ⟨after, w', hrun⟩ := Session.exists_outcome_eq_ok
      (s := build ⟨Sample.alone "a\nb", "/o", none⟩) (w := Sample.world "/i" [0x50])
      (by decide +kernel)
    have helements : after.elements = [("a\nb-1.jar" : Text)] := by
      have hfacts : ((build ⟨Sample.alone "a\nb", "/o", none⟩).outcome
          (Sample.world "/i" [0x50])).1.toOption.map (·.elements) =
            some [("a\nb-1.jar" : Text)] := by decide +kernel
      rw [hrun] at hfacts
      exact Option.some.inj hfacts
    have hread : w'.files.read (Request.manifest ⟨Sample.alone "a\nb", "/o", none⟩) =
        .ok [0x61, 0x0A, 0x62, 0x2D, 0x31, 0x2E, 0x6A, 0x61, 0x72] := by
      rw [← congrArg (fun run => run.2.files.read
        (Request.manifest ⟨Sample.alone "a\nb", "/o", none⟩)) hrun]
      decide +kernel
    have hlines := h (Sample.aloneDocument "a\nb") ⟨Sample.alone "a\nb", "/o", none⟩ _ w' after
      "a\nb-1.jar" _ (Configuration.eq_valid_of_value? (by decide +kernel)) (by decide +kernel) rfl
      hrun (by decide +kernel) hread
    rw [helements] at hlines
    revert hlines
    decide +kernel

end Build

end Jarsmith

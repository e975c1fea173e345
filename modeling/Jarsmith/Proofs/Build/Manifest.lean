import Jarsmith.Proofs.Build.Inputs
import Jarsmith.Proofs.Configuration.Classpath

/-!
# What the manifest says

The manifest of a build that succeeds names the outputs in the order of the classpath, one a line,
and holds nothing else. Here that is told without the classpath of the model, from the configuration
itself: `build_manifest`.
-/

namespace Jarsmith.Build

variable {request : Request} {w w' : World} {after : Assembly}

/-- **The manifest**: after a build that succeeds the elements are the output of the project, if it
is an archive, and then those of the archives among the dependencies, ascending by name and else in
the order of the configuration. An output is named as repackaged if a selector of some task accepts
the artifact. The manifest, whatever was there before, has these names with a line feed between each
two, unless it is the log file. -/
theorem build_manifest (hlog : w.LogReady) (h : (build request).outcome w = (.ok after, w')) :
    (∃ dependencies : List Artifact,
      dependencies.Pairwise (fun a b => a.artifactId ≤ b.artifactId) ∧
      (∀ id, dependencies.filter (·.artifactId = id) =
        request.configuration.dependencies.filter fun a =>
          a.isArchive && decide (a.artifactId = id)) ∧
      after.elements =
        ((request.configuration.project?.filter (·.isArchive)).toList ++ dependencies).map
          fun a =>
            if request.configuration.taskSelectors.any (·.accepts a.groupId a.artifactId) then
              a.artifactId ++ ("-" : Text) ++ a.version ++ ("-repackaged.jar" : Text)
            else a.artifactId ++ ("-" : Text) ++ a.version ++ (".jar" : Text)) ∧
    (w.console.logFile? ≠
        some ((request.outputDirectory.child "classpath.txt").landing w.files.workingDirectory) →
      ∃ bytes, Utf8.encode? (([0x0A] : Text).intercalate after.elements) = some bytes ∧
        w'.files.read (request.outputDirectory.child "classpath.txt") = .ok bytes) := by
  obtain ⟨helements, hmanifest⟩ := elements_of_build hlog h
  obtain ⟨dependencies, hclasspath, hsorted, hstable⟩ := request.configuration.classpath_eq_append
  refine ⟨⟨dependencies, hsorted, hstable, ?_⟩, ?_⟩
  · rw [helements, hclasspath]
    exact List.map_congr_left fun a _ => request.configuration.outputName_eq_ite a
  · rw [← Text.joinWith_eq_intercalate]
    exact hmanifest

/-- A configuration of a project and four dependencies, one of which is no archive and two of which
have one name. A task without transformers is for the project. -/
def Sample.fiveArtifacts : Configuration where
  version := Configuration.firstVersion
  project? := some ⟨"g", "p", "1", archiveType, "/i"⟩
  dependencies := [⟨"h", "b", "2", archiveType, "/i"⟩, ⟨"h", "c", "1", "pom", "/none"⟩,
    ⟨"h", "b", "1", archiveType, "/i"⟩, ⟨"h", "a", "3", archiveType, "/i"⟩]
  outputDirectory := "/o"
  compressionLevel := Configuration.defaultLevel
  strictCreate := true
  minify? := none
  modify? := some ⟨[.group "g"], []⟩

theorem build_manifest_of_fiveArtifacts :
    ∃ after w', (build ⟨Sample.fiveArtifacts, "/o", none⟩).outcome
        (Sample.world "/i" (Archive.encode [])) = (.ok after, w') ∧
      after.elements = ["p-1-repackaged.jar", "a-3.jar", "b-2.jar", "b-1.jar"] ∧
      ∃ bytes, Utf8.encode? (([0x0A] : Text).intercalate after.elements) = some bytes ∧
        w'.files.read "/o/classpath.txt" = .ok bytes := by
  have hfacts : ((build ⟨Sample.fiveArtifacts, "/o", none⟩).outcome
      (Sample.world "/i" (Archive.encode []))).1.toOption.map (·.elements) =
        some (["p-1-repackaged.jar", "a-3.jar", "b-2.jar", "b-1.jar"] : List Text) := by
    have hclasspath : Sample.fiveArtifacts.classpath =
        [⟨"g", "p", "1", archiveType, "/i"⟩, ⟨"h", "a", "3", archiveType, "/i"⟩,
          ⟨"h", "b", "2", archiveType, "/i"⟩, ⟨"h", "b", "1", archiveType, "/i"⟩] := by
      unfold Configuration.classpath Configuration.sortedDependencies Sample.fiveArtifacts
      simp +decide [List.mergeSort]
    simp only [build, Pipeline.execute, Pipeline.attempt, Pipeline.standard, Pipeline.runSteps,
      Step.run, Resolution.step, Resolution.execute, hclasspath]
    decide +kernel
  cases hrun : (build ⟨Sample.fiveArtifacts, "/o", none⟩).outcome
      (Sample.world "/i" (Archive.encode [])) with
  | mk result w' =>
    rw [hrun] at hfacts
    cases result with
    | error fault => simp [Except.toOption] at hfacts
    | ok after =>
      have hlog : (Sample.world "/i" (Archive.encode [])).LogReady := by
        intro p hp
        simp [Sample.world] at hp
      have hpath : Path.child "/o" "classpath.txt" = ("/o/classpath.txt" : Path) := by
        decide +kernel
      refine ⟨after, w', rfl, Option.some.inj hfacts, ?_⟩
      rw [← hpath]
      exact (build_manifest hlog hrun).2 (by simp [Sample.world])

end Jarsmith.Build

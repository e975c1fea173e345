import Jarsmith.Proofs.Build.Run
import Jarsmith.Proofs.ClassGraph.Loading

/-!
# What a build leaves of its inputs

A build opens its outputs while it still has inputs to read, and an output may be an input: its own,
or that of another artifact. `build_read_artifact` says that no other way leads to the loss of an
input, whether the build succeeds or fails: what is not in `Request.replaced`, where nothing is if
outputs must not be there before, has the same bytes after the build. `build_empties_input` shows
that the condition is needed.
-/

namespace Jarsmith

namespace Sample

/-- The project of a configuration, by its file. -/
def project (file : Path) : Artifact := ⟨"g", "a", "1", archiveType, file⟩

/-- A configuration of a project alone, of which the classes reached from `entryPoints` are kept. -/
def configuration (file : Path) (strictCreate : Bool) (entryPoints : List Text) :
    Configuration where
  version := Configuration.firstVersion
  project? := some (project file)
  dependencies := []
  outputDirectory := "/o"
  compressionLevel := Configuration.defaultLevel
  strictCreate := strictCreate
  minify? := some ⟨[.all], entryPoints, [], []⟩
  modify? := none

/-- The document of that configuration. -/
def document (file : Text) (strictCreate : Bool) (entryPoints : List Text) : Document :=
  .mapping [
    (.text "project", .mapping [(.text "group_id", .text "g"), (.text "artifact_id", .text "a"),
      (.text "version", .text "1"), (.text "file", .text file)]),
    (.text "output_directory", .text "/o"),
    (.text "strict_create", .bool strictCreate),
    (.text "minify", .mapping [(.text "artifacts", .list [.text "*:*"]),
      (.text "entry_points", .list (entryPoints.map .text))])]

/-- A state in which a file is all there is. -/
def world (file : Path) (bytes : Bytes) : World where
  files := (⟨[], []⟩ : FileSystem).install file.parts (.file bytes)
  environment := ⟨[], []⟩
  console := ⟨.info, none, [], [], 80, false, []⟩

end Sample

namespace Build

variable {request : Request} {a : Artifact} {w : World} {bytes : Bytes}

/-- **The inputs of a build**: whatever comes of a build, the file of an artifact has the bytes that
it had, unless it is where the build replaces a file, or is the log file. -/
theorem build_read_artifact (hlog : w.LogReady)
    (hopen : w.console.logFile? ≠ some (a.file.landing w.files.workingDirectory))
    (hplace : a.file.landing w.files.workingDirectory ∉
      request.replaced w.files.workingDirectory)
    (hread : w.files.read a.file = .ok bytes) :
    ((build request).outcome w).2.files.read a.file = .ok bytes := by
  have hw : w.Ready w.setting := ⟨rfl, hlog⟩
  exact (build_within request w hw).read hw hplace hopen hread

/-- An input beside the output directory is kept. -/
theorem build_read_artifact_beside :
    ((build ⟨Sample.configuration "/i/a.jar" false [], "/o", none⟩).outcome
      (Sample.world "/i/a.jar" [0x50])).2.files.read "/i/a.jar" = .ok [0x50] := by
  refine build_read_artifact (a := Sample.project "/i/a.jar") ?_ ?_ ?_ ?_
  · intro p hp
    simp [Sample.world] at hp
  · simp [Sample.world]
  · rintro (⟨a, ha, -, hp, -⟩ | ⟨-, hp⟩)
    · have : (Sample.configuration "/i/a.jar" false []).classpath =
          [Sample.project "/i/a.jar"] := by decide +kernel
      obtain rfl : a = Sample.project "/i/a.jar" := by simpa [this] using ha
      revert hp
      decide +kernel
    · revert hp
      decide +kernel
  · decide +kernel

/-- The archive of a single class. -/
def Sample.singleClass : Bytes :=
  Archive.encode [Sample.member "X.class" (Sample.classFile "X" [])]

/-- An artifact that is repackaged to its own file is emptied before its members are read. -/
theorem build_empties_input :
    ¬ ∀ (d : Document) (request : Request) (w : World) (a : Artifact) (bytes : Bytes),
      Configuration.ofDocument d = .valid request.configuration →
      a ∈ request.configuration.artifacts → w.console.logFile? = none →
      w.files.read a.file = .ok bytes →
      ((build request).outcome w).2.files.read a.file = .ok bytes := by
  intro h
  have hread := h (Sample.document "/o/a-1-repackaged.jar" false ["X"])
    ⟨Sample.configuration "/o/a-1-repackaged.jar" false ["X"], "/o", none⟩
    (Sample.world "/o/a-1-repackaged.jar" Sample.singleClass)
    (Sample.project "/o/a-1-repackaged.jar") Sample.singleClass
    (Configuration.eq_valid_of_value? (by decide +kernel)) (by decide +kernel) rfl
    (by decide +kernel)
  revert hread
  decide +kernel

end Build

end Jarsmith

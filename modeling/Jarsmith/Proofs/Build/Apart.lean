import Jarsmith.Proofs.Build.Inputs

/-!
# Which outputs of a build are apart

Each artifact of the classpath has an output, the name of which is listed in the manifest. Two
outputs are one file if they land at one place, and where no name holds a slash that is so exactly
if they have one name (`Request.landing_output_eq_iff`). An output that lands elsewhere is left as
it is by every later one (`Request.leaves_of_landing_ne`). So it comes down to the names, and
`Configuration.nodup_outputNames_iff` tells when they are distinct; `outputs_apart` puts this
together. Validation does not rule out that outputs are one file: `outputs_may_have_one_name`.
-/

namespace Jarsmith

/-- The name of an output is the name of a file if no slash is in it. -/
theorem Configuration.isPart_outputName {c : Configuration} {a : Artifact}
    (h : Path.slash ∉ c.outputName a) : Path.IsPart (c.outputName a) := by
  have hlength : 4 < (c.outputName a).length := by
    have htype : archiveType.length = 3 := by decide
    rw [Configuration.outputName_eq, List.length_append, List.length_append, List.length_cons,
      List.length_cons, htype]
    omega
  refine ⟨h, ?_, ?_, ?_⟩
  all_goals
    intro heq
    rw [heq] at hlength
    revert hlength
    decide

namespace Build

variable {e : Setting} {request : Request} {a b : Artifact} {w w' : World} {after : Assembly}

/-- Writing the output of `b` leaves the output of `a` as it is, in whatever state. -/
def Request.Leaves (request : Request) (a b : Artifact) : Prop :=
  ∀ (assembly : Assembly) (total index : Nat) (w : World) (bytes : Bytes),
    assembly.Decided request → w.LogReady →
    w.console.logFile? ≠ some ((request.output a).landing w.files.workingDirectory) →
    w.files.read (request.output a) = .ok bytes →
    ((ArchiveOutput.writeNext request total assembly b index).outcome w).2.files.read
      (request.output a) = .ok bytes

theorem Request.leaves_of_landing_ne (h : ∀ root,
    (request.output a).landing root ≠ (request.output b).landing root) : request.Leaves a b := by
  intro assembly total index w bytes hdecided hlog hopen hread
  have hwithin := ArchiveOutput.writeNext_within (e := w.setting) hdecided total b index
  exact (hwithin w ⟨rfl, hlog⟩).read ⟨rfl, hlog⟩ (fun hplace => h _ hplace.2.1) hopen hread

/-- Where no name holds a slash, outputs are one file exactly if they have one name. -/
theorem Request.landing_output_eq_iff (root : Place)
    (ha : Path.slash ∉ request.configuration.outputName a)
    (hb : Path.slash ∉ request.configuration.outputName b) :
    (request.output a).landing root = (request.output b).landing root ↔
      request.configuration.outputName a = request.configuration.outputName b :=
  Path.landing_child_eq_iff (Configuration.isPart_outputName ha)
    (Configuration.isPart_outputName hb)

/-- **The outputs of a build** that validation accepts: their names are distinct exactly if no two
artifacts collide, and these names are the elements and the lines of the manifest. An output that is
at another place is left as it is, and where no name holds a slash that is one of another name. -/
theorem outputs_apart (request : Request) {d : Document}
    (h : Configuration.ofDocument d = .valid request.configuration) :
    ((request.configuration.classpath.map request.configuration.outputName).Nodup ↔
      request.configuration.classpath.Pairwise fun a b => ¬ request.configuration.Collide a b) ∧
    (∀ w after w', w.LogReady → (build request).outcome w = (.ok after, w') →
      after.elements = request.configuration.classpath.map request.configuration.outputName ∧
      (w.console.logFile? ≠ some (request.manifest.landing w.files.workingDirectory) →
        ∃ bytes, Utf8.encode? (Text.joinWith [0x0A] after.elements) = some bytes ∧
          w'.files.read request.manifest = .ok bytes)) ∧
    (∀ a b, (∀ root, (request.output a).landing root ≠ (request.output b).landing root) →
      request.Leaves a b) ∧
    ∀ a b root, Path.slash ∉ request.configuration.outputName a →
      Path.slash ∉ request.configuration.outputName b →
      ((request.output a).landing root = (request.output b).landing root ↔
        request.configuration.outputName a = request.configuration.outputName b) :=
  ⟨Configuration.nodup_outputNames_iff h, fun _ _ _ => elements_of_build,
    fun _ _ => Request.leaves_of_landing_ne, fun _ _ => Request.landing_output_eq_iff⟩

/-- The document of a project and a dependency, by their names and versions, that are copied. -/
def Sample.pairDocument (a aVersion b bVersion : Text) : Document :=
  let artifact (name version : Text) : Document := .mapping [(.text "group_id", .text "g"),
    (.text "artifact_id", .text name), (.text "version", .text version), (.text "file", .text "/i")]
  .mapping [(.text "project", artifact a aVersion),
    (.text "dependencies", .list [artifact b bVersion]), (.text "output_directory", .text "/o")]

/-- The configuration of that document. -/
def Sample.pair (a aVersion b bVersion : Text) : Configuration where
  version := Configuration.firstVersion
  project? := some ⟨"g", a, aVersion, archiveType, "/i"⟩
  dependencies := [⟨"g", b, bVersion, archiveType, "/i"⟩]
  outputDirectory := "/o"
  compressionLevel := Configuration.defaultLevel
  strictCreate := false
  minify? := none
  modify? := none

theorem outputs_apart_of_plain_names :
    (Sample.pair "a" "1" "b" "1").classpath.Pairwise fun a b =>
      ¬ (Sample.pair "a" "1" "b" "1").Collide a b :=
  (outputs_apart ⟨Sample.pair "a" "1" "b" "1", "/o", none⟩
    (d := Sample.pairDocument "a" "1" "b" "1")
    (Configuration.eq_valid_of_value? (by decide +kernel))).1.1 (by decide +kernel)

/-- Version `b-c` of `a` and version `c` of `a-b` have one output, which validation accepts. -/
theorem outputs_may_have_one_name :
    ¬ ∀ (d : Document) (c : Configuration), Configuration.ofDocument d = .valid c →
      (c.classpath.map c.outputName).Nodup := by
  intro h
  have hnodup := h (Sample.pairDocument "a" "b-c" "a-b" "c")
    (Sample.pair "a" "b-c" "a-b" "c")
    (Configuration.eq_valid_of_value? (by decide +kernel))
  revert hnodup
  decide +kernel

end Build

end Jarsmith

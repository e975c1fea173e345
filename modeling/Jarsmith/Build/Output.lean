import Jarsmith.Build.Basic

/-!
# What a build writes

One step writes an archive for each artifact of the classpath: anew if a task of the configuration
is for the artifact, and otherwise as a copy. The other step writes the manifest. A failure leaves
what was written before it.
-/

namespace Jarsmith.Build

namespace ArchiveOutput

/-- What the step does, for readers. -/
def description : Text := "重新打包"

/-- The progress before the step. -/
abbrev first : Int := 45

/-- The progress after the step. -/
abbrev last : Int := 95

/-- Which members of an artifact are kept, if the task of minification is for it. -/
def keeps? (request : Request) (assembly : Assembly) (a : Artifact) : Option (Text → Bool) :=
  match request.configuration.minify?, assembly.retention? with
  | some task, some retention => if task.accepts a then some retention.keeps else none
  | _, _ => none

/-- The editor for the classes of an artifact, if the task of modification is for it. -/
def editor? (assembly : Assembly) (a : Artifact) : Except Fault (Option Editor) :=
  match assembly.modification? with
  | some m => if m.accepts a then m.get.map some else .ok none
  | none => .ok none

/-- How hard the data of members are made small. -/
def level (request : Request) : Deflate.Level :=
  (Deflate.Level.ofInt? request.configuration.compressionLevel).getD .standard

/-- What is done with the members of an artifact; nothing if no task is for it. -/
def plan? (request : Request) (assembly : Assembly) (a : Artifact) :
    Except Fault (Option Repackaging.Plan) := do
  let keeps? := keeps? request assembly a
  let editor? ← editor? assembly a
  return if keeps?.isNone && editor?.isNone then none
    else some ⟨keeps?, editor?, level request⟩

/-- The name of the output file of an artifact. -/
def outputName (plan? : Option Repackaging.Plan) (a : Artifact) : Text :=
  if plan?.isSome then a.repackagedName else a.copyName

/-- Counts an archive that was written anew. -/
def countRepackaged (s : Statistics) (stats : Repackaging.Stats) : Statistics :=
  { s with
    repackaged := s.repackaged + 1
    droppedMembers := s.droppedMembers + stats.dropped
    modifiedClasses := s.modifiedClasses + stats.modified }

/-- Writes the output file of an artifact, and gives what was counted. -/
def writeOne (request : Request) (plan? : Option Repackaging.Plan) (a : Artifact) (output : Path)
    (s : Statistics) : Session Statistics := do
  let strict := request.configuration.strictCreate
  match plan? with
  | none =>
    Repackaging.copy strict a.file output
    return { s with copied := s.copied + 1 }
  | some plan => return countRepackaged s (← Repackaging.repackage strict plan a.file output)

/-- Writes the output file of artifact number `index` of `total`. -/
def writeNext (request : Request) (total : Nat) (assembly : Assembly) (a : Artifact)
    (index : Nat) : Session Assembly := do
  showProgress description (percentAt first last index total) a.file.name
  let plan? ← (plan? request assembly a : Except Fault _)
  let name := outputName plan? a
  let output := request.outputDirectory.child name
  let s ← writeOne request plan? a output assembly.statistics
  let size ← Session.ask (·.size output)
  return { assembly with
    elements := assembly.elements ++ [name]
    statistics := { s with outputSize := s.outputSize + size } }

/-- How the end of the step is reported. -/
def summary (s : Statistics) : Text :=
  ("归档处理完成: 重新打包 " : Text) ++ Text.ofNat s.repackaged ++ (" 个, 复制 " : Text) ++
    Text.ofNat s.copied ++ (" 个, 输出 " : Text) ++ Text.ofSize s.outputSize

/-- Writes an archive for each artifact. -/
def execute (request : Request) (assembly : Assembly) : Session Assembly := do
  Session.report .info .repack (("输出目录: " : Text) ++ request.outputDirectory.toText)
  Session.makeDirectories request.outputDirectory
  let total := assembly.artifacts.length
  let assembly ← assembly.artifacts.zipIdx.foldlM
    (fun assembly (a, index) => writeNext request total assembly a index) assembly
  showProgress description last
    (("完成 " : Text) ++ Text.ofNat total ++ (" 个归档" : Text))
  Session.report .success .repack (summary assembly.statistics)
  return assembly

/-- The step. -/
def step : Step where
  name := "repackage"
  description := description
  stage := .repack
  first := first
  last := last
  execute := execute

end ArchiveOutput

namespace ManifestOutput

/-- What the step does, for readers. -/
def description : Text := "写出清单"

/-- Writes the manifest. -/
def execute (request : Request) (assembly : Assembly) : Session Assembly := do
  let path ← writeManifest request.configuration.strictCreate request.outputDirectory
    assembly.elements
  showProgress description 100 path.name
  Session.report .success .manifest
    (("清单已写出: " : Text) ++ path.toText ++ (" (" : Text) ++
      Text.ofNat assembly.elements.length ++ (" 项)" : Text))
  return { assembly with manifest? := some path }

/-- The step. -/
def step : Step where
  name := "manifest"
  description := description
  stage := .manifest
  first := ArchiveOutput.last
  last := 100
  execute := execute

end ManifestOutput

end Jarsmith.Build

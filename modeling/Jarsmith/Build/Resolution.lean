import Jarsmith.Build.Basic

/-!
# The artifacts of a build

The first step puts the artifacts in the order of the classpath and makes sure that their files are
there.
-/

namespace Jarsmith.Build.Resolution

/-- What the step does, for readers. -/
def description : Text := "解析构件"

/-- The progress after the step. -/
abbrev last : Int := 5

/-- Fails at the first artifact whose file is not there. -/
def checkFiles (artifacts : List Artifact) : Session Unit :=
  artifacts.forM fun a => do
    if !(← Session.ask (·.isFile a.file)) then throw (.noArtifactFile a.id a.file)

/-- The sizes of the files of artifacts. -/
def sizes (artifacts : List Artifact) : Session (List Nat) :=
  artifacts.mapM fun a => Session.ask (·.size a.file)

/-- How artifact number `index` is reported. -/
def line (index : Nat) (a : Artifact) (size : Nat) : Text :=
  ("[" : Text) ++ Text.ofNat index ++ ("] " : Text) ++ a.id ++ (":" : Text) ++ a.version ++
    (" " : Text) ++ a.file.name ++ (" size=" : Text) ++ Text.ofSize size

/-- Reports each artifact with its size. -/
def reportEach (artifacts : List Artifact) (sizes : List Nat) : Session Unit :=
  ((artifacts.zip sizes).zipIdx).forM fun ((a, size), index) =>
    Session.report .debug .resolve (line index a size)

/-- Takes the artifacts of the classpath into the assembly. -/
def execute (request : Request) (assembly : Assembly) : Session Assembly := do
  Session.report .info .resolve "确定 classpath 顺序"
  let artifacts := request.configuration.classpath
  checkFiles artifacts
  let skipped := request.configuration.artifacts.length - artifacts.length
  if skipped ≠ 0 then
    Session.report .debug .resolve
      (("跳过 " : Text) ++ Text.ofNat skipped ++ (" 个非 jar 构件" : Text))
  let sizes ← sizes artifacts
  let count := Text.ofNat artifacts.length ++ (" 个归档" : Text)
  showProgress description last (("共 " : Text) ++ count)
  Session.report .success .resolve (("classpath 共 " : Text) ++ count)
  reportEach artifacts sizes
  return { assembly with
    artifacts
    statistics := { assembly.statistics with
      archives := artifacts.length
      inputSize := sizes.foldr (· + ·) 0 } }

/-- The step. -/
def step : Step where
  name := "resolve"
  description := description
  stage := .resolve
  first := 0
  last := last
  execute := execute

end Jarsmith.Build.Resolution

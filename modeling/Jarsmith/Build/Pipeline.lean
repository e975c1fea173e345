import Jarsmith.Build.Analysis
import Jarsmith.Build.Output
import Jarsmith.Build.Resolution

/-!
# Pipelines

A pipeline is a list of steps that are executed one after another until one fails. In a sound
pipeline the progress of each step begins where the one before it ends, and all of them together go
from nothing to a hundred percent.
-/

namespace Jarsmith.Build

/-- Steps in the order of their execution. -/
abbrev Pipeline := List Step

namespace Pipeline

/-- The pipeline that assembles a classpath. -/
def standard : Pipeline :=
  [Resolution.step, Analysis.step, ModificationChoice.step, ArchiveOutput.step, ManifestOutput.step]

/-- The index at which something is inserted into a list of `length` items. A negative position
counts from the end, and one that is beyond an end means that end. -/
def insertionIndex (length : Nat) (position : Int) : Nat :=
  if position < 0 then (position + length).toNat else min position.toNat length

/-- Adds a step at a position, or at the end. -/
def add (p : Pipeline) (s : Step) : (position? : Option Int) → Pipeline
  | none => p ++ [s]
  | some position => p.insertIdx (insertionIndex p.length position) s

/-- Removes all steps of a name. -/
def remove (p : Pipeline) (name : Text) : Pipeline := p.filter (·.name ≠ name)

/-- What is wrong with the progress of steps where the first should begin at `expected`. -/
def problemsFrom (expected : Int) : Pipeline → List Text
  | [] =>
    if expected = 100 then []
    else [("进度在 " : Text) ++ Text.ofInt expected ++ ("% 处结束，而不是 100%" : Text)]
  | s :: rest =>
    let gap :=
      if s.first = expected then []
      else [s.name ++ (": 进度从 " : Text) ++ Text.ofInt s.first ++ ("% 开始，应接在 " : Text) ++
        Text.ofInt expected ++ ("% 之后" : Text)]
    let empty :=
      if s.last ≤ s.first then
        [s.name ++ (": 进度区间 " : Text) ++ Text.ofInt s.first ++ ("%-" : Text) ++
          Text.ofInt s.last ++ ("% 为空" : Text)]
      else []
    gap ++ empty ++ problemsFrom s.last rest

/-- What is wrong with the progress of a pipeline. -/
def problems (p : Pipeline) : List Text :=
  if p.isEmpty then ["构建管道中没有步骤"] else problemsFrom 0 p

/-- Executes steps until one fails. -/
def runSteps (request : Request) : Pipeline → Assembly → Session Assembly
  | [], assembly => return assembly
  | s :: rest, assembly => do
    Session.report .info .build (("执行步骤: " : Text) ++ s.description)
    runSteps request rest (← s.run request assembly)

/-- How a truth value is reported. -/
def truthLine (b : Bool) : Text := if b then "True" else "False"

/-- How the request is reported. -/
def requestLine (c : Configuration) : Text :=
  ("构建配置: minify=" : Text) ++ truthLine c.minify?.isSome ++ (" modify=" : Text) ++
    truthLine c.modify?.isSome ++ (" compression_level=" : Text) ++ Text.ofInt c.compressionLevel ++
    (" strict_create=" : Text) ++ truthLine c.strictCreate

/-- Reports something that belongs to no stage. -/
def note (message : Text) : Session Unit := Session.emit ⟨.info, none, message⟩

/-- Reports what an execution came to. The duration is reported as none, since a session has no
clock. -/
def reportResult (c : Configuration) (assembly : Assembly) : Session Unit := do
  let s := assembly.statistics
  let manifest := match assembly.manifest? with
    | some path => path.toText
    | none => "None"
  Session.report .success .done (("classpath 组装成功: " : Text) ++ manifest)
  note "构建时间: 0.0秒"
  note (("归档数量: " : Text) ++ Text.ofNat s.archives)
  if c.minify?.isSome then
    note (("移除类: " : Text) ++ Text.ofNat s.removableClasses ++ (" / " : Text) ++
      Text.ofNat s.classes)
  note (("输入大小: " : Text) ++ Text.ofSize s.inputSize)
  note (("输出大小: " : Text) ++ Text.ofSize s.outputSize)

/-- Executes a pipeline from an empty assembly, without the report of a failure. -/
def attempt (p : Pipeline) (request : Request) : Session Assembly := do
  Session.report .info .build
    (("开始组装 classpath: " : Text) ++ request.outputDirectory.toText)
  Session.report .debug .build (requestLine request.configuration)
  let assembly ← p.runSteps request .empty
  reportResult request.configuration assembly
  return assembly

/-- Executes a pipeline. A failure is reported, and becomes the cause of the failure of the
build. -/
def execute (p : Pipeline) (request : Request) : Session Assembly :=
  tryCatch (p.attempt request) fun cause => do
    let fault := Fault.build "构建" cause
    Session.report .error .build fault.message
    throw fault

end Pipeline

/-- The request for a configuration: the output directory is the one given, unless that is missing
or empty. -/
def Request.of (c : Configuration) (outputDirectory? : Option Text)
    (editor? : Option Editor) : Request where
  configuration := c
  outputDirectory := match outputDirectory? with
    | some (x :: rest) => Path.ofText (x :: rest)
    | _ => c.outputDirectory
  editor? := editor?

end Jarsmith.Build

namespace Jarsmith

/-- Assembles a classpath. -/
def build (request : Build.Request) : Session Build.Assembly :=
  Build.Pipeline.standard.execute request

end Jarsmith

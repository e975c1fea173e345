import Jarsmith.Build.Basic

/-!
# What a build decides before it writes

One step finds out which members are kept, the other which editor is applied to classes. Each does
nothing if the configuration has no task for it.
-/

namespace Jarsmith.Build

namespace Analysis

/-- What the step does, for readers. -/
def description : Text := "可达性分析"

/-- The progress before the step. -/
abbrev first : Int := 5

/-- The progress after the step. -/
abbrev last : Int := 40

/-- Analyses the classpath for a task. -/
def analyze (task : MinifyTask) (assembly : Assembly) : Session Assembly := do
  Session.report .info .analyze "分析类可达性"
  showProgress description first "构建类图..."
  let retention ← Session.traced fun files =>
    Retention.analyze task files (assembly.artifacts.map (·.file))
  let duplicates := retention.graph.duplicates.length
  let removable := retention.reachability.removable.length
  if duplicates ≠ 0 then
    Session.report .warning .analyze
      (Text.ofNat duplicates ++ (" 个类在多个归档中重复定义" : Text))
  showProgress description last
    (("可移除 " : Text) ++ Text.ofNat removable ++ (" 个类" : Text))
  Session.report .success .analyze "可达性分析完成"
  return { assembly with
    retention? := some retention
    statistics := { assembly.statistics with
      classes := retention.graph.size
      removableClasses := removable } }

/-- Analyses the classpath if the configuration asks for it. -/
def execute (request : Request) (assembly : Assembly) : Session Assembly := do
  match request.configuration.minify? with
  | some task => analyze task assembly
  | none =>
    Session.report .info .analyze "未配置最小化任务，跳过可达性分析"
    return assembly

/-- The step. -/
def step : Step where
  name := "analyze"
  description := description
  stage := .analyze
  first := first
  last := last
  execute := execute

end Analysis

namespace ModificationChoice

/-- What the step does, for readers. -/
def description : Text := "准备字节码修改"

/-- The progress after the step. -/
abbrev last : Int := 45

/-- How the origin of the editor is reported. -/
def originLine (m : Modification) : Text :=
  if m.editor?.isSome then "使用外部注入的修改函数"
  else
    let names := m.task.transformers.map (·.name)
    ("变换器: " : Text) ++ (if names.isEmpty then ("(无)" : Text) else Text.joinWith ", " names)

/-- Prepares the editor if the configuration has a task for it. -/
def execute (request : Request) (assembly : Assembly) : Session Assembly := do
  match request.configuration.modify? with
  | none =>
    Session.report .debug .modify "未配置字节码修改任务"
    return assembly
  | some task =>
    let given : Modification := ⟨task, request.editor?⟩
    let (prepared, _, events) := given.prepare
    Session.emitAll events
    Session.report .info .modify (originLine given)
    showProgress description last []
    return { assembly with modification? := some prepared }

/-- The step. -/
def step : Step where
  name := "prepare-modify"
  description := description
  stage := .modify
  first := Analysis.last
  last := last
  execute := execute

end ModificationChoice

end Jarsmith.Build

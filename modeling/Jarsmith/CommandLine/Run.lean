import Jarsmith.Build.Pipeline
import Jarsmith.CommandLine.Command
import Jarsmith.Configuration.File
import Jarsmith.Configuration.Finding

/-!
# Running commands

Each command is a session that shows its results and ends with an exit status: zero, or one if
something is wrong with the configuration or the work failed.
-/

namespace Jarsmith.CommandLine

/-- The status with which the program ends. -/
inductive Status where
  | success
  | failure
  /-- The command line cannot be read. -/
  | usage
  deriving DecidableEq, Repr

/-- The number of a status. -/
def Status.code : Status → Nat
  | .success => 0
  | .failure => 1
  | .usage => 2

/-- The name of the program. -/
def programName : Text := "classpack"

/-- The version of the program. -/
def programVersion : Text := "0.1.0"

/-- The lines that say how the program is used. -/
def usageLines : List Text := [
  programName ++ (" [--version] [--verbose] COMMAND" : Text),
  "  build -c FILE [-o DIRECTORY] [--strict] [--log-file FILE] [-v]",
  "  validate -c FILE [--json]",
  "  analyze -c FILE [--show-removable]",
  "  example [-o FILE]"]

/-- Goes on with the configuration in a file. What is wrong with it is shown, and is a failure. -/
def withConfiguration (file : Path) (go : Configuration → Session Status) : Session Status := do
  match ← Session.observe (Configuration.load file) with
  | .ok c => go c
  | .error (.configuration (.invalid ps)) =>
    Session.printMarked "[red]配置验证失败:[/red]"
    Session.print (Problem.report ps)
    return .failure
  | .error (.configuration e) =>
    if !e.isFinding then throw (.configuration e)
    Session.printMarked (("[red]配置错误[/red]: " : Text) ++ e.message)
    return .failure
  | .error e => throw e

/-! ### Building -/

/-- The kinds and texts of a fault and of those that caused it, each below the one that it
caused. -/
def chainText (f : Fault) : Text :=
  Text.joinWith ([0x0A] ++ ("  ↳ " : Text))
    (f.chain.map fun f => f.kind ++ (": " : Text) ++ f.message)

/-- Opens the log file. One that cannot be opened is only reported. -/
def openLog (file : Text) : Session Unit :=
  tryCatch (Session.openLog (.ofText file)) fun
    | .files .nulByte => throw (.files .nulByte)
    | .files _ => Session.printMarked
        (("[yellow]无法写入日志文件: " : Text) ++ file ++ ("[/yellow]" : Text))
    | e => throw e

/-- Shows a failed build. With a log file, or if asked for, more is shown. -/
def showFailure (detailed : Bool) (f : Fault) : Session Unit := do
  Session.printMarked (("[red]✗ 构建失败[/red]: " : Text) ++ f.message)
  Session.print (chainText f)
  if detailed then
    Session.printMarked "[yellow]详细错误信息:[/yellow]"
    Session.print (Text.joinWith [0x0A] (f.chain.reverse.map Fault.message))

/-- Shows what a build came to. -/
def showAssembly (c : Configuration) (a : Build.Assembly) : Session Unit := do
  let manifest := match a.manifest? with
    | some path => path.toText
    | none => "None"
  Session.printMarked (("[green]✓ classpath 组装完成[/green]: " : Text) ++ manifest)
  Session.printMarked (("[blue]归档数量[/blue]: " : Text) ++ Text.ofNat a.elements.length)
  if c.minify?.isSome then
    Session.printMarked
      (("[blue]移除类[/blue]: " : Text) ++ Text.ofNat a.statistics.removableClasses)

/-- Sets how much is reported. -/
def setVerbose (verbose : Bool) : Session Unit :=
  Session.setThreshold (if verbose then Log.Level.debug else .info).name

/-- Builds a classpath. -/
def runBuild (o : BuildOptions) : Session Status := do
  setVerbose o.verbose
  Session.setShowsProgress o.verbose
  let logFile? := o.logFile?.filter fun file => !file.isEmpty
  if let some file := logFile? then openLog file
  Session.printMarked (("[cyan]正在加载配置文件[/cyan]: " : Text) ++ o.file)
  withConfiguration (.ofText o.file) fun c => do
    let c := { c with strictCreate := c.strictCreate || o.strict }
    match ← Session.observe (Jarsmith.build (.of c o.outputDirectory? none)) with
    | .error f =>
      showFailure (logFile?.isSome || o.verbose) f
      return .failure
    | .ok a =>
      showAssembly c a
      return .success

/-! ### Validating -/

/-- The mark of something that holds. -/
def tick (b : Bool) : Text := if b then "✓" else []

/-- A column of any width. -/
def column (title : Text) : Column := ⟨title, none⟩

/-- The artifacts of a classpath and the tasks that are for them. -/
def classpathTable (c : Configuration) : Table where
  title := ("classpath → " : Text) ++ c.outputDirectory.toText
  columns := [column "#", column "构件", column "版本", column "minify", column "modify"]
  rows := c.classpath.zipIdx.map fun (a, index) => [Text.ofNat index, a.id, a.version,
    tick (c.minify?.any (·.accepts a)), tick (c.modify?.any (·.accepts a))]

/-- The place of a finding. -/
def placeOf (f : Configuration.Finding) : Text :=
  let place := Text.joinWith "." (f.location.map Step.toText)
  if place.isEmpty then "(根)" else place

/-- How the value of a finding is shown in a table. -/
def cellOf : Document → Text
  | .null => "-"
  | d => d.plain

/-- The findings of a validation. -/
def findingsTable (file : Path) (findings : List Configuration.Finding) : Table where
  title := file.name ++ (": " : Text) ++ Text.ofNat findings.length ++ (" 个错误" : Text)
  columns := [column "字段", column "问题", ⟨"取值", some 48⟩]
  rows := findings.map fun f => [placeOf f, f.message, cellOf f.value]

/-- The findings of a validation as JSON. -/
def findingsJson (file : Path) (findings : List Configuration.Finding) : Text :=
  (Document.mapping [(.text "file", .text file.toText),
    (.text "errors", .list (findings.map (·.toDocument))),
    (.text "error_count", .int findings.length)]).toJson

/-- Validates a configuration file. -/
def runValidate (file : Path) (asJson : Bool) : Session Status := do
  let loaded ← Session.observe (Configuration.load file)
  let (findings, _) ← (Configuration.verdict loaded : Except Fault _)
  match loaded with
  | .ok c =>
    if asJson then Session.show (.wideText (findingsJson file []))
    else
      Session.printMarked
        (("[green]✓ " : Text) ++ file.name ++ (" 校验通过[/green]" : Text))
      Session.printTable (classpathTable c)
    return .success
  | .error _ =>
    if asJson then Session.show (.wideText (findingsJson file findings))
    else Session.printTable (findingsTable file findings)
    return .failure

/-! ### Analyzing -/

/-- The number of classes in a list that an archive defines. -/
def countIn (g : ClassGraph) (archive : Path) (names : List Text) : Nat :=
  names.countP fun name => (g.find? name).any (·.archive = archive)

/-- The artifacts of a classpath and how many of their classes can be removed. -/
def reachabilityTable (task : MinifyTask) (artifacts : List Artifact) (r : Retention) : Table where
  title := "可达性分析"
  columns := [column "构件", column "作用", column "类总数", column "可移除"]
  rows := artifacts.map fun a => [a.id, if task.accepts a then "minify" else "-",
    Text.ofNat (countIn r.graph a.file r.graph.names),
    Text.ofNat (countIn r.graph a.file r.reachability.removable)]

/-- Shows what an analysis came to. -/
def showRetention (task : MinifyTask) (artifacts : List Artifact) (listsRemovable : Bool)
    (r : Retention) : Session Unit := do
  Session.printTable (reachabilityTable task artifacts r)
  let unresolved := r.reachability.unresolved
  Session.printMarked (("入口点: " : Text) ++ Text.ofNat r.entryPoints.length ++
    (" 个, 未找到: " : Text) ++ Text.ofNat unresolved.length ++ (" 个" : Text))
  unresolved.forM fun name => Session.printMarked (("  [yellow]未找到[/yellow] " : Text) ++ name)
  if listsRemovable then
    (Text.sort r.reachability.removable).forM fun name => Session.print (("  " : Text) ++ name)

/-- Analyses which classes can be reached. -/
def runAnalyze (file : Path) (listsRemovable : Bool) : Session Status :=
  withConfiguration file fun c => do
    match c.minify? with
    | none =>
      Session.printMarked "[yellow]配置中没有 minify 任务，无需分析[/yellow]"
      return .failure
    | some task =>
      let artifacts := c.classpath
      let analysis : Session Retention := Session.traced fun files =>
        Retention.analyze task files (artifacts.map (·.file))
      match ← Session.observe analysis with
      | .error f =>
        Session.printMarked (("[red]分析失败[/red]: " : Text) ++ f.message)
        return .failure
      | .ok r =>
        showRetention task artifacts listsRemovable r
        return .success

/-! ### Writing an example -/

/-- An example of a configuration, with both tasks. -/
def exampleConfiguration : Configuration where
  version := 1
  project? := some ⟨"com.example", "app", "1.0.0", archiveType, "target/app-1.0.0.jar"⟩
  dependencies := [⟨"com.example", "library", "2.1.0", archiveType, "lib/library-2.1.0.jar"⟩]
  outputDirectory := "target/classpath"
  compressionLevel := Configuration.defaultLevel
  strictCreate := false
  minify? := some ⟨[.artifact "com.example" "library"], ["com.example.Main"], [],
    ["META-INF/services/java.sql.Driver"]⟩
  modify? := some ⟨[.all], [.removeDebugInformation]⟩

/-- Writes the example to a file. -/
def runExample (output : Text) : Session Status := do
  match ← Session.observe (Configuration.save exampleConfiguration (.ofText output)) with
  | .ok () =>
    Session.printMarked (("[green]✓[/green] 已写出 " : Text) ++ output)
    Session.print "修改其中的构件坐标、文件路径和入口点后执行:"
    Session.printMarked (("  [cyan]classpack build -c " : Text) ++ output ++ ("[/cyan]" : Text))
    return .success
  | .error (.configuration e) =>
    Session.printMarked (("[red]写出示例配置失败[/red]: " : Text) ++ e.message)
    return .failure
  | .error e => throw e

/-! ### All commands -/

/-- Runs a command. -/
def Command.run : Command → Session Status
  | .version => do
    Session.print (programName ++ (" v" : Text) ++ programVersion)
    return .success
  | .help => do
    usageLines.forM Session.print
    return .success
  | .build o => runBuild o
  | .validate file asJson => runValidate file asJson
  | .analyze file listsRemovable => runAnalyze file listsRemovable
  | .exampleFile output => runExample output

end CommandLine

/-- Runs a command line. A fault that no command expects is a failure. -/
def runCommandLine (arguments : List Text) (w : World) : CommandLine.Status × World :=
  match CommandLine.Invocation.ofArguments? arguments with
  | none => (.usage, w)
  | some invocation =>
    let session := do
      CommandLine.setVerbose invocation.verbose
      invocation.command.run
    match Session.outcome session w with
    | (.ok status, w) => (status, w)
    | (.error _, w) => (.failure, w)

end Jarsmith

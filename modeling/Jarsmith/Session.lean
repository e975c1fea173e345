import Jarsmith.Console.Shown
import Jarsmith.FileSystem.Basic
import Jarsmith.FileSystem.Environment
import Jarsmith.Log.Traced

/-!
# Sessions

What a run of the program can see and change: the files, the environment, and the console with its
transcript and its log file. A session is a function on that state, so a run is a value like any
other: what it leaves behind when it fails is the state at that point.
-/

namespace Jarsmith

/-- Where reports go. -/
structure Console where
  /-- The least level to be shown. -/
  threshold : Log.Level
  /-- The place of the open log file. -/
  logFile? : Option Place
  /-- The day, with which the lines of a log file begin. -/
  day : Text
  timeOfDay : Text
  /-- The number of cells in a line. -/
  width : Nat
  /-- Whether the progress of builds is to be seen. -/
  showsProgress : Bool
  /-- What was shown, in order. -/
  transcript : List Shown
  deriving Repr

/-- The lines that are to be seen of something that was shown. -/
def Console.lines (c : Console) (s : Shown) : List Text :=
  match s with
  | .progress _ => if c.showsProgress then s.lines c.timeOfDay c.width else []
  | s => s.lines c.timeOfDay c.width

/-- The state of a session. -/
structure World where
  files : FileSystem
  environment : Environment
  console : Console
  deriving Repr

/-- A computation that may fail and may change files and report. -/
abbrev Session := ExceptT Fault (StateM World)

namespace Session

/-- Shows something. -/
def «show» (s : Shown) : Session Unit :=
  modify fun w => { w with console := { w.console with transcript := w.console.transcript ++ [s] } }

/-- Shows a text as it is. -/
def print (t : Text) : Session Unit := «show» (.text t)

/-- The text of a marked text. -/
def unmark (t : Text) : Session Text :=
  match Markup.plain? t with
  | some t => return t
  | none => throw .unbalancedMarkup

/-- Shows a marked text. -/
def printMarked (t : Text) : Session Unit := do print (← unmark t)

/-- Shows a table, the cells of which are marked texts. -/
def printTable (t : Table) : Session Unit := do
  let rows ← t.rows.mapM fun row => row.mapM unmark
  «show» (.table { t with title := ← unmark t.title, rows })

/-- Writes a line at the end of the log file, if one is open. A text that cannot be encoded is a
failure. -/
def writeLog (e : Log.Event) : Session Unit := do
  let w ← get
  match w.console.logFile? with
  | none => return
  | some place =>
    let time := w.console.day ++ 0x20 :: w.console.timeOfDay
    let line := 0x5B :: time ++ ("] " : Text) ++ e.line ++ [0x0A]
    match Utf8.encode? line with
    | none => throw (.unencodable line)
    | some bytes =>
      let old := match w.files.node? place with
        | some (.file contents) => contents
        | _ => []
      set { w with files := w.files.put place (.file (old ++ bytes)) }

/-- Reports an event if its level is to be shown. -/
def emit (e : Log.Event) : Session Unit := do
  if e.level.isShown (← get).console.threshold then
    «show» (.event e)
    writeLog e

/-- Reports an event of a stage. -/
def report (level : Log.Level) (stage : Log.Stage) (message : Text) : Session Unit :=
  emit (Log.event level stage message)

/-- Reports events in their order. -/
def emitAll (es : List Log.Event) : Session Unit := es.forM emit

/-- Runs a traced computation on the files as they are, and reports its events. -/
def traced {α : Type} (c : FileSystem → Traced α) : Session α := do
  let (result, events) := Traced.outcome (c (← get).files)
  emitAll events
  result

/-- Asks about files. -/
def ask {α : Type} (f : FileSystem → Except FileSystem.Error α) : Session α := do
  match f (← get).files with
  | .ok a => return a
  | .error e => throw (.files e)

/-- Changes files. -/
def change (f : FileSystem → Except FileSystem.Error FileSystem) : Session Unit := do
  let w ← get
  match f w.files with
  | .ok files => set { w with files }
  | .error e => throw (.files e)

/-- Makes a directory and those above it as far as they are missing. -/
def makeDirectories (path : Path) : Session Unit := do
  let w ← get
  let (files, result) := w.files.makeDirectories path
  set { w with files }
  match result with
  | .ok () => return
  | .error e => throw (.files e)

/-- Sets the least level to be shown, unless the name is not one of the known levels. -/
def setThreshold (name : Text) : Session Unit := do
  let level := Log.Level.ofName name
  if level ∈ Log.Level.known then
    modify fun w => { w with console := { w.console with threshold := level } }

/-- Sets whether the progress of builds is to be seen. -/
def setShowsProgress (b : Bool) : Session Unit :=
  modify fun w => { w with console := { w.console with showsProgress := b } }

/-- Closes the log file. -/
def closeLog : Session Unit :=
  modify fun w => { w with console := { w.console with logFile? := none } }

/-- Opens a log file, to write at its end. The one that was open is closed first. -/
def openLog (path : Path) : Session Unit := do
  closeLog
  makeDirectories path.parent
  change fun files => files.append path []
  let place ← ask (·.locate path)
  modify fun w => { w with console := { w.console with logFile? := some place } }

/-- The result of a session, which may be a failure, as a value. -/
def observe {α : Type} (s : Session α) : Session (Except Fault α) :=
  tryCatch (return .ok (← s)) fun e => return .error e

/-- The outcome of a session and the state after it. -/
def outcome {α : Type} (s : Session α) (w : World) : Except Fault α × World := s.run.run w

end Session

end Jarsmith

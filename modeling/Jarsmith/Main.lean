import Jarsmith.CommandLine.Footprint
import Jarsmith.CommandLine.Run
import Std.Time.Format
import Std.Time.Zoned

/-!
# The program

Puts the files that a command works on into a value, runs the command on it, prints what it shows,
and writes the files that it changed.
-/

namespace Jarsmith.Program

/-- What is at a place of the system. -/
def nodeAt (place : Place) : IO (Option Node) := do
  let path := (← IO.currentDir) / (Path.mk 1 place).toText.toString
  if ← path.isDir then return some .directory
  if ← path.pathExists then return some (.file (← IO.FS.readBinFile path).toList)
  return none

/-- Adds what is at the places of a path. -/
def loadPath (files : FileSystem) (path : Path) : IO FileSystem :=
  (path.places files.workingDirectory).foldlM (fun files place => do
    if (files.node? place).isSome then return files
    match ← nodeAt place with
    | some node => return files.put place node
    | none => return files) files

/-- The text of a file, if there is one. -/
def textAt (files : FileSystem) (path : Path) : Text :=
  ((files.read path).toOption.bind Utf8.decode).getD []

/-- The table of the users of the system. -/
def userTable : Path := "/etc/passwd"

/-- The variables and home directories to which a text may refer. -/
def loadEnvironment (files : FileSystem) (text : Text) : IO Environment := do
  let names := Text.unique (Environment.homeVariable :: Environment.namesIn text)
  let values ← names.filterMapM fun name => do
    return (← IO.getEnv name.toString).map fun value => (name, Text.ofString value)
  return ⟨values, Environment.homesIn (textAt (← loadPath files userTable) userTable)⟩

/-- The number of cells in a line of the console. -/
def consoleWidth : IO Nat := do
  return (((← IO.getEnv "COLUMNS").bind String.toNat?).filter (0 < ·)).getD 80

/-- The console before a run. -/
def newConsole : IO Console := do
  let now ← Std.Time.PlainDateTime.now
  return {
    threshold := .info
    logFile? := none
    day := Text.ofString (now.format "uuuu-MM-dd")
    timeOfDay := Text.ofString (now.format "HH:mm:ss")
    width := ← consoleWidth
    showsProgress := false
    transcript := [] }

/-- The state in which a command begins. -/
def loadWorld (command : CommandLine.Command) : IO World := do
  let directory := Path.ofText (Text.ofString (← IO.currentDir).toString)
  let files ← command.paths.foldlM loadPath ⟨[], directory.parts⟩
  let console ← newConsole
  match command.file? with
  | none => return ⟨files, ⟨[], []⟩, console⟩
  | some file =>
    let environment ← loadEnvironment files (textAt files file)
    match Configuration.ofFile environment files file with
    | .error _ => return ⟨files, environment, console⟩
    | .ok c => return ⟨← (command.pathsIn c).foldlM loadPath files, environment, console⟩

/-- Prints a line. -/
def printLine (toError : Bool) (line : Text) : IO Unit :=
  if toError then IO.eprintln line.toString else IO.println line.toString

/-- Makes the files of the system those of the value, where it differs from the one before. -/
def writeBack (before after : FileSystem) : IO Unit := do
  for (place, node) in after.nodes do
    if before.node? place != some node then
      let path := (← IO.currentDir) / (Path.mk 1 place).toText.toString
      match node with
      | .directory => IO.FS.createDirAll path
      | .file contents => IO.FS.writeBinFile path ⟨contents.toArray⟩

end Jarsmith.Program

open Jarsmith Jarsmith.Program in
/-- Runs the command line. -/
def main (arguments : List String) : IO UInt32 := do
  let arguments := arguments.map Text.ofString
  match CommandLine.Invocation.ofArguments? arguments with
  | none =>
    CommandLine.usageLines.forM (printLine true)
    return CommandLine.Status.usage.code.toUInt32
  | some invocation =>
    let before ← loadWorld invocation.command
    let (status, after) := runCommandLine arguments before
    for shown in after.console.transcript do
      (after.console.lines shown).forM (printLine shown.isError)
    writeBack before.files after.files
    return status.code.toUInt32

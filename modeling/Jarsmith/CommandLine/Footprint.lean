import Jarsmith.Build.Pipeline
import Jarsmith.CommandLine.Command
import Jarsmith.Configuration.File

/-!
# What a command works on

A session works on a value that holds files. So before a command is run, one has to know which files
to put into that value: those whose paths the command names, and with its configuration also those
that a build reads and writes.
-/

namespace Jarsmith

/-- The places to which a path and its beginnings lead, as seen from a place, and all above that
place. -/
def Path.places (p : Path) (workingDirectory : Place) : List Place :=
  let start := if p.isAbsolute then [] else workingDirectory
  (List.range start.length).map start.take ++
    (List.range (p.parts.length + 1)).map fun n => descend start (p.parts.take n)

namespace Environment

/-- The names of the variables that a text may refer to. -/
def namesIn : Text → List Text
  | [] => []
  | c :: t => (if c = 0x24 then (cutVariable? t).toList.map Prod.fst else []) ++ namesIn t

/-- The home directories in a table of users, which has a line for each with fields between
colons. -/
def homesIn (table : Text) : List (Text × Text) :=
  (table.splitOn 0x0A).filterMap fun line =>
    match line.splitOn 0x3A with
    | name :: _ :: _ :: _ :: _ :: home :: _ => some (name, home)
    | _ => none

end Environment

namespace CommandLine.Command

/-- The configuration file. -/
def file? : Command → Option Path
  | build o => some (.ofText o.file)
  | validate file _ | analyze file _ => some file
  | version | help | exampleFile _ => none

/-- The paths that a command names. -/
def paths : Command → List Path
  | build o => .ofText o.file :: o.logFile?.toList.map Path.ofText
  | validate file _ | analyze file _ => [file]
  | exampleFile output => [.ofText output]
  | version | help => []

/-- The paths that a command reads or writes because of a configuration. -/
def pathsIn (c : Configuration) : Command → List Path
  | build o =>
    let directory := (Build.Request.of c o.outputDirectory? none).outputDirectory
    let outputs := c.artifacts.flatMap fun a => [a.copyName, a.repackagedName]
    c.artifacts.map (·.file) ++ (manifestName :: outputs).map directory.child
  | analyze _ _ => c.artifacts.map (·.file)
  | version | help | validate _ _ | exampleFile _ => []

end CommandLine.Command

end Jarsmith

import Jarsmith.Archive.UnitName
import Jarsmith.ClassFile.Decode
import Jarsmith.ClassFile.Reference
import Jarsmith.ClassGraph.Basic
import Jarsmith.EntryPoint

/-!
# The classes of archives

Each class member of an archive is read for the classes that it names. A member for one platform
version is no definition of its own: what it names is added to the definition in the same archive,
or, if there is none, becomes the definition.

A scan goes through archives in the order of the classpath, and keeps what it found before a
failure.
-/

namespace Jarsmith

/-- The name of the class in a class file, and the other classes that it names. -/
def ClassFile.dependencies (data : Bytes) : Except ClassFile.Error (Text × List Text) := do
  let c ← ClassFile.decode data
  let name ← c.name
  return (name, ← c.references)

namespace ClassGraph

/-- What a class member was found to hold. -/
structure Found where
  /-- The class that the member defines, by the member's name. -/
  name : Text
  isVersioned : Bool
  references : List Text
  deriving DecidableEq, Repr

/-- What was read of an archive: the class members up to a failure, and the size of their data. -/
structure Reading where
  found : List Found
  size : Nat
  failure? : Option Fault

/-- The members of an archive that define classes, with the classes that they define. -/
def classMembers (a : Archive) : List (Archive.Member × Text) :=
  a.members.filterMap fun m => (Archive.unitName? m.name).map (m, ·)

/-- Reads class members until one fails. -/
def readMembers (a : OpenArchive) : List (Archive.Member × Text) → Reading
  | [] => ⟨[], 0, none⟩
  | (m, name) :: members =>
    match a.read m with
    | .error e => ⟨[], 0, some e⟩
    | .ok data =>
      match ClassFile.dependencies data with
      | .error e => ⟨[], data.length, some (.unparsable (a.label m.name) (.classFile e))⟩
      | .ok (_, references) =>
        let rest := readMembers a members
        let found : Found := ⟨name, Archive.isVersioned m.name, references.filter (· ≠ name)⟩
        { rest with found := found :: rest.found, size := data.length + rest.size }

/-- The classes of versioned members with what they name, each class once. -/
def versionedClasses (found : List Found) : List (Text × List Text) :=
  let versioned := found.filter (·.isVersioned)
  (Text.unique (versioned.map (·.name))).map fun name =>
    (name, Text.unique ((versioned.filter (·.name = name)).flatMap (·.references)))

/-- What a scan has come to. -/
structure Scan where
  graph : ClassGraph
  /-- The size of the data of the class members read. -/
  size : Nat
  events : List Log.Event

namespace Scan

/-- A scan that has seen nothing. -/
def start : Scan := ⟨ClassGraph.empty, 0, []⟩

/-- Adds a definition to the graph. -/
def define (s : Scan) (d : Definition) : Scan :=
  { s with graph := s.graph.add d, events := s.events ++ s.graph.duplicateEvents d }

/-- Adds what versioned members of an archive name to the class, or defines it. -/
def merge (archive : Path) (s : Scan) : Text × List Text → Scan
  | (name, references) =>
    match s.graph.find? name with
    | some d =>
      if d.archive = archive then { s with graph := s.graph.extend name references }
      else s.define ⟨name, archive, references⟩
    | none => s.define ⟨name, archive, references⟩

/-- Takes in what was read of an archive: the plain members one by one, and after the last one the
versioned ones. -/
def add (s : Scan) (archive : Path) (r : Reading) : Scan :=
  let plain := r.found.filter (!·.isVersioned)
  let s := plain.foldl (fun s f => s.define ⟨f.name, archive, f.references⟩)
    { s with size := s.size + r.size }
  match r.failure? with
  | some _ => s
  | none =>
    let versioned := versionedClasses r.found
    let s := versioned.foldl (merge archive) s
    let event := Log.event .debug .scan (archive.name ++ (": " : Text) ++
      Text.ofNat r.found.length ++ (" 个类, " : Text) ++ Text.ofNat versioned.length ++
      (" 个多版本覆盖" : Text))
    { s with events := s.events ++ [event] }

/-- Scans an archive; also gives the number of its class members. -/
def addArchive (s : Scan) (files : FileSystem) (path : Path) : Scan × Except Fault Nat :=
  match OpenArchive.load files path with
  | .error e => (s, .error e)
  | .ok a =>
    let r := readMembers a (classMembers a.archive)
    (s.add path r, match r.failure? with
      | some e => .error e
      | none => .ok r.found.length)

/-- Scans archives until one fails. -/
def addArchives (s : Scan) (files : FileSystem) : List Path → Scan × Except Fault Unit
  | [] => (s, .ok ())
  | path :: paths =>
    match s.addArchive files path with
    | (s, .error e) => (s, .error e)
    | (s, .ok _) => s.addArchives files paths

/-- The event of a finished scan. -/
def finished (s : Scan) : Log.Event :=
  Log.event .info .scan (("类图构建完成: " : Text) ++ Text.ofNat s.graph.size ++
    (" 个类, " : Text) ++ Text.ofNat s.graph.edgeCount ++ (" 条引用, 扫描 " : Text) ++
    Text.ofSize s.size)

end Scan

/-- The graph of the classes of archives. -/
def ofArchives (files : FileSystem) (archives : List Path) : Traced ClassGraph := do
  let (s, result) := Scan.start.addArchives files archives
  Traced.reportAll s.events
  result
  Traced.report s.finished
  return s.graph

end ClassGraph

end Jarsmith

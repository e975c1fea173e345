import Jarsmith.Bytes.Field
import Jarsmith.Text.Utf8
import Jarsmith.FileSystem.Error

/-!
# Files

A file system is a value: which places hold a file with which bytes, and which hold a directory. A
place is the list of the parts that lead to it from the root. Paths are followed part by part, and
every part but the last must lead to a directory that is there, also before two dots.

Operations that change files give the file system after them; one that fails changes nothing, except
that `makeDirectories` keeps the directories that it made before it failed.
-/

namespace Jarsmith

/-- The parts that lead from the root to a file or a directory. -/
abbrev Place := List Text

/-- What can be at a place. -/
inductive Node where
  | file (contents : Bytes)
  | directory
  deriving DecidableEq, Repr

/-- What is at each place, and from where relative paths start. The root is a directory and need not
be listed. -/
structure FileSystem where
  nodes : List (Place × Node)
  workingDirectory : Place
  deriving Repr

namespace FileSystem

/-- What is at a place. -/
def node? (files : FileSystem) (place : Place) : Option Node :=
  if place.isEmpty then some .directory else files.nodes.lookup place

/-- Puts a node at a place, in the stead of the one that is there. -/
def put (files : FileSystem) (place : Place) (node : Node) : FileSystem :=
  { files with nodes := (files.nodes.filter (·.1 ≠ place)) ++ [(place, node)] }

/-- The most bytes that one part of a path may have. -/
abbrev longestName : Nat := 255

/-- A part of a path that is too long for every system. -/
def isTooLong (part : Text) : Bool := (part.flatMap Utf8.encodePoint).length > longestName

/-- The place to which parts lead, or the reason why they lead nowhere. What is at the place itself
does not matter. -/
def locateFrom (files : FileSystem) : Place → List Text → Except Reason Place
  | place, [] => .ok place
  | place, part :: parts =>
    match files.node? place with
    | none => .error .missing
    | some (.file _) => .error .notDirectory
    | some .directory =>
      if isTooLong part then .error .nameTooLong
      else if part = Path.dotDot then files.locateFrom place.dropLast parts
      else files.locateFrom (place ++ [part]) parts

/-- The place of a path. -/
def locate (files : FileSystem) (path : Path) : Except Error Place :=
  if path.parts.any (0 ∈ ·) then .error .nulByte
  else
    (files.locateFrom (if path.isAbsolute then [] else files.workingDirectory) path.parts).mapError
      (.failed · path)

/-- The place of a path, and what is there. -/
def find (files : FileSystem) (path : Path) : Except Error (Place × Node) := do
  let place ← files.locate path
  match files.node? place with
  | some node => return (place, node)
  | none => throw (.failed .missing path)

/-- What is at a path, where a path that leads nowhere has nothing. Only a name that is too long for
the system is an error. -/
def status (files : FileSystem) (path : Path) : Except Error (Option Node) :=
  match files.find path with
  | .ok (_, node) => .ok (some node)
  | .error (.failed .nameTooLong p) => .error (.failed .nameTooLong p)
  | .error _ => .ok none

/-- There is a file at a path. -/
def isFile (files : FileSystem) (path : Path) : Except Error Bool :=
  (files.status path).map fun
    | some (.file _) => true
    | _ => false

/-- There is a directory at a path. -/
def isDirectory (files : FileSystem) (path : Path) : Except Error Bool :=
  (files.status path).map fun
    | some .directory => true
    | _ => false

/-- There is something at a path. -/
def exists? (files : FileSystem) (path : Path) : Except Error Bool :=
  (files.status path).map Option.isSome

/-- The size that a directory is said to have. -/
abbrev directorySize : Nat := 4096

/-- The size of what is at a path. -/
def size (files : FileSystem) (path : Path) : Except Error Nat := do
  let (_, node) ← files.find path
  match node with
  | .file contents => return contents.length
  | .directory => return directorySize

/-- The bytes of the file at a path. -/
def read (files : FileSystem) (path : Path) : Except Error Bytes := do
  let (_, node) ← files.find path
  match node with
  | .file contents => return contents
  | .directory => throw (.failed .isDirectory path)

/-- Whether a file that is there may be overwritten. -/
inductive WriteMode where
  | replace
  | create
  deriving DecidableEq, Repr

/-- Writes a file. -/
def write (files : FileSystem) (mode : WriteMode) (path : Path) (contents : Bytes) :
    Except Error FileSystem := do
  let place ← files.locate path
  match files.node? place, mode with
  | none, _ | some (.file _), .replace => return files.put place (.file contents)
  | some .directory, .replace => throw (.failed .isDirectory path)
  | some _, .create => throw (.failed .exists path)

/-- Writes bytes at the end of a file, which need not be there. -/
def append (files : FileSystem) (path : Path) (more : Bytes) : Except Error FileSystem := do
  let place ← files.locate path
  match files.node? place with
  | none => return files.put place (.file more)
  | some (.file contents) => return files.put place (.file (contents ++ more))
  | some .directory => throw (.failed .isDirectory path)

/-- Makes a directory in one that is there. -/
def makeDirectory (files : FileSystem) (path : Path) : Except Error FileSystem := do
  let place ← files.locate path
  match files.node? place with
  | none => return files.put place .directory
  | some _ => throw (.failed .exists path)

/-- Makes a directory in one that is there; one that is there already will do. -/
def ensureDirectory (files : FileSystem) (path : Path) : Except Error FileSystem :=
  match files.makeDirectory path with
  | .ok files => .ok files
  | .error e =>
    match files.isDirectory path with
    | .ok true => .ok files
    | .ok false => .error e
    | .error e => .error e

/-- Makes a directory and the directories above it as far as they are missing; `depth` bounds how
far up that goes. -/
def makeDirectoriesUpTo (files : FileSystem) : (depth : Nat) → Path → FileSystem × Except Error Unit
  | 0, path => (files, .error (.failed .missing path))
  | depth + 1, path =>
    match files.ensureDirectory path with
    | .ok files => (files, .ok ())
    | .error (.failed .missing p) =>
      if path.parts.isEmpty then (files, .error (.failed .missing p))
      else
        match files.makeDirectoriesUpTo depth path.parent with
        | (files, .error e) => (files, .error e)
        | (files, .ok ()) =>
          match files.ensureDirectory path with
          | .ok files => (files, .ok ())
          | .error e => (files, .error e)
    | .error e => (files, .error e)

/-- Makes a directory and the directories above it as far as they are missing. -/
def makeDirectories (files : FileSystem) (path : Path) : FileSystem × Except Error Unit :=
  files.makeDirectoriesUpTo (path.parts.length + 1) path

/-- Copies a file over another one, or to a new place. -/
def copy (files : FileSystem) (source target : Path) : Except Error FileSystem := do
  match files.find source, files.find target with
  | .ok (a, _), .ok (b, _) => if a = b then throw (.sameFile source target)
  | _, _ => pure ()
  files.write .replace target (← files.read source)

/-- Puts a node at a place, and a directory at each place above it that has nothing. -/
def install (files : FileSystem) (place : Place) (node : Node) : FileSystem :=
  let files := (List.range place.length).foldl (fun files n =>
    match files.node? (place.take n) with
    | some _ => files
    | none => files.put (place.take n) .directory) files
  files.put place node

/-- Removes what is at a place and below it. -/
def remove (files : FileSystem) (place : Place) : FileSystem :=
  { files with nodes := files.nodes.filter fun (p, _) => !place.isPrefixOf p }

/-- What is below a place, by the parts that lead there from it. -/
def below (files : FileSystem) (place : Place) : List (List Text × Node) :=
  files.nodes.filterMap fun (p, node) =>
    if place.isPrefixOf p && p.length != place.length then some (p.drop place.length, node)
    else none

end FileSystem

end Jarsmith

import Jarsmith.Configuration.Document
import Jarsmith.Configuration.FileError
import Jarsmith.FileSystem.Environment
import Jarsmith.Session
import Jarsmith.Yaml.Value
import Jarsmith.Yaml.Writer

/-!
# Configurations in files

A configuration file holds one YAML document. Relative paths in it start from the directory of the
file.
-/

namespace Jarsmith.Configuration

/-- Reads a document, seen from the directory `base`, as a configuration. -/
def ofDocumentAt (env : Environment) (workingDirectory : Place) (base : Path) (d : Document) :
    Except FileError Configuration :=
  match ofDocument (resolvePaths (env.expand workingDirectory (some base)) d) with
  | .valid c => .ok c
  | .invalid ps => .error (.invalid ps)

/-- The document of a text in a file of the given name. -/
def documentOfText (name text : Text) : Except FileError Document :=
  match Yaml.documentOf text.withLineFeeds with
  | .error .malformed => .error (.notYaml name)
  | .error (.noSuchValue flaw reason) => .error (.noSuchValue flaw reason)
  | .ok .null => .error (.empty name)
  | .ok (.mapping entries) => .ok (.mapping entries)
  | .ok d => .error (.notMapping name d.typeName)

/-- The document in a configuration file. -/
def readDocument (files : FileSystem) (path : Path) : Except Fault Document := do
  if !(← (files.isFile path).mapError .files) then
    if ← (files.exists? path).mapError .files then throw (.configuration (.notFile path))
    else throw (.configuration (.missing path))
  if path.ending.toLower ∉ fileEndings then throw (.configuration (.badEnding path.name))
  let bytes ← (files.read path).mapError .files
  match Utf8.decode bytes with
  | none => throw (.configuration (.notUtf8 path))
  | some text => (documentOfText path.name text).mapError .configuration

/-- The configuration in a file. -/
def ofFile (env : Environment) (files : FileSystem) (path : Path) : Except Fault Configuration := do
  let d ← readDocument files path
  (ofDocumentAt env files.workingDirectory path.parent d).mapError .configuration

/-- Reads the configuration in a file. -/
def load (path : Path) : Session Configuration := do
  let w ← get
  (ofFile w.environment w.files path : Except Fault Configuration)

/-- Turns a failure of writing a file into that of writing the configuration. -/
def wrapWriting (path : Path) (s : Session Unit) : Session Unit :=
  tryCatch s fun
    | .files e => throw (.configuration (.unwritable path e))
    | e => throw e

/-- Writes a configuration to a file, and makes the directories above it. -/
def save (c : Configuration) (path : Path) : Session Unit := do
  wrapWriting path do
    Session.makeDirectories path.parent
    Session.change fun files => files.write .replace path []
  let text := Yaml.write c.toDocument
  match Utf8.encode? text with
  | none => throw (.unencodable text)
  | some bytes => Session.change fun files => files.write .replace path bytes

end Jarsmith.Configuration

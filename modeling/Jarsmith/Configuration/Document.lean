import Jarsmith.Configuration.Validation

/-!
# Configurations as documents

Every field is written, with underscores in its name; only a project and tasks that are not there
are left out. Relative paths in a document can be resolved before it is read.
-/

namespace Jarsmith

/-- A sequence of texts as a document. -/
def Document.ofTexts (ts : List Text) : Document := .list (ts.map .text)

namespace Artifact

/-- An artifact as a document. -/
def toDocument (a : Artifact) : Document :=
  .mapping [
    (.text "group_id", .text a.groupId),
    (.text "artifact_id", .text a.artifactId),
    (.text "version", .text a.version),
    (.text "type", .text a.type),
    (.text "file", .text a.file.toText)]

end Artifact

/-- The selectors of a task as a document. -/
def Selector.listDocument (selectors : List Selector) : Document :=
  Document.ofTexts (selectors.map toText)

/-- A minification task as a document. -/
def MinifyTask.toDocument (t : MinifyTask) : Document :=
  .mapping [
    (.text Selector.field, Selector.listDocument t.selectors),
    (.text "entry_points", .ofTexts t.entryPoints),
    (.text "property_entry_points", .ofTexts t.propertyMembers),
    (.text "service_entry_points", .ofTexts t.serviceMembers)]

/-- A modification task as a document. -/
def ModifyTask.toDocument (t : ModifyTask) : Document :=
  .mapping [
    (.text Selector.field, Selector.listDocument t.selectors),
    (.text "transformers", .ofTexts (t.transformers.map (·.name)))]

namespace Configuration

/-- An entry for a part that may not be there. -/
def optionalEntry (name : Text) (d? : Option Document) : List (Document × Document) :=
  match d? with
  | some d => [(.text name, d)]
  | none => []

/-- A configuration as a document. -/
def toDocument (c : Configuration) : Document :=
  .mapping (
    [(.text "config", .mapping [(.text "version", .int c.version)])] ++
    optionalEntry "project" (c.project?.map Artifact.toDocument) ++
    [(.text "dependencies", .list (c.dependencies.map Artifact.toDocument)),
      (.text "output_directory", .text c.outputDirectory.toText),
      (.text "compression_level", .int c.compressionLevel),
      (.text "strict_create", .bool c.strictCreate)] ++
    optionalEntry "minify" (c.minify?.map MinifyTask.toDocument) ++
    optionalEntry "modify" (c.modify?.map ModifyTask.toDocument))

/-- Resolves the value of an entry if it is a text that is not empty. -/
def resolveValue (resolve : Text → Path) : Document → Document
  | .text (c :: t) => .text (resolve (c :: t)).toText
  | d => d

/-- Changes the values of the entries with the given keys. -/
def mapValues (keys : List Text) (f : Document → Document) (entries : List (Document × Document)) :
    List (Document × Document) :=
  entries.map fun (key, d) =>
    if keys.any fun k => key == .text k then (key, f d) else (key, d)

/-- Resolves the path of an artifact. -/
def resolveArtifact (resolve : Text → Path) : Document → Document
  | .mapping entries => .mapping (mapValues ["file"] (resolveValue resolve) entries)
  | d => d

/-- Resolves the paths of artifacts in a list. -/
def resolveArtifacts (resolve : Text → Path) : Document → Document
  | .list items => .list (items.map (resolveArtifact resolve))
  | d => d

/-- Resolves the relative paths of a document that is to be read as a configuration. -/
def resolvePaths (resolve : Text → Path) : Document → Document
  | .mapping entries => .mapping (
      mapValues ["output_directory", "outputDirectory"] (resolveValue resolve)
        (mapValues ["project"] (resolveArtifact resolve)
          (mapValues ["dependencies"] (resolveArtifacts resolve) entries)))
  | d => d

end Configuration

end Jarsmith

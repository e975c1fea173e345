import Jarsmith.Configuration.Selector
import Jarsmith.FileSystem.Path

/-!
# Configurations

What a classpath is made of: the project, its dependencies and the output directory, and the tasks
that work on them. A minification drops the classes that no entry point reaches; a modification
transforms classes. Texts here are as validation leaves them, without white space at their ends.
-/

namespace Jarsmith

/-- The type of the artifacts that are archives of classes. -/
def archiveType : Text := "jar"

/-- The project or a dependency. -/
structure Artifact where
  groupId : Text
  artifactId : Text
  version : Text
  type : Text
  file : Path
  deriving DecidableEq, Repr

namespace Artifact

/-- Group and artifact, joined by a colon. -/
def id (a : Artifact) : Text := a.groupId ++ Selector.colon :: a.artifactId

/-- The artifact takes part in the classpath. -/
def isArchive (a : Artifact) : Bool := a.type = archiveType

/-- The name of the output file if the archive is copied. -/
def copyName (a : Artifact) : Text :=
  a.artifactId ++ 0x2D :: a.version ++ 0x2E :: archiveType

/-- The name of the output file if the archive is repackaged. -/
def repackagedName (a : Artifact) : Text :=
  a.artifactId ++ 0x2D :: a.version ++ ("-repackaged." : Text) ++ archiveType

end Artifact

/-- The transformations of classes that a configuration may ask for. -/
inductive Transformer where
  | removeDebugInformation
  deriving DecidableEq, Repr

namespace Transformer

/-- The name of a transformer. -/
def name : Transformer → Text
  | removeDebugInformation => "remove_debug_information"

/-- The name under which reports show a transformer. -/
def label : Transformer → Text
  | removeDebugInformation => "RemoveDebugInformationTransformer"

/-- All transformers. -/
def every : List Transformer := [removeDebugInformation]

/-- The transformer of a name. -/
def ofName? (t : Text) : Option Transformer := every.find? (·.name = t)

end Transformer

/-- The task of dropping classes that no entry point reaches. -/
structure MinifyTask where
  selectors : List Selector
  entryPoints : List Text
  /-- The members whose property values are entry points. -/
  propertyMembers : List Text
  /-- The members whose lines are entry points. -/
  serviceMembers : List Text
  deriving DecidableEq, Repr

/-- The task of transforming classes. -/
structure ModifyTask where
  selectors : List Selector
  transformers : List Transformer
  deriving DecidableEq, Repr

/-- Some selector takes the artifact. -/
def selects (selectors : List Selector) (a : Artifact) : Bool :=
  selectors.any (·.accepts a.groupId a.artifactId)

/-- The task is for the artifact. -/
def MinifyTask.accepts (t : MinifyTask) (a : Artifact) : Bool := selects t.selectors a

/-- The task is for the artifact. -/
def ModifyTask.accepts (t : ModifyTask) (a : Artifact) : Bool := selects t.selectors a

/-- A configuration. -/
structure Configuration where
  /-- The version of the configuration's own form. -/
  version : Int
  project? : Option Artifact
  dependencies : List Artifact
  outputDirectory : Path
  compressionLevel : Int
  strictCreate : Bool
  minify? : Option MinifyTask
  modify? : Option ModifyTask
  deriving DecidableEq, Repr

namespace Configuration

/-- The compression level that stands for the default. -/
abbrev defaultLevel : Int := -1

/-- The project, if there is one, and the dependencies. -/
def artifacts (c : Configuration) : List Artifact := c.project?.toList ++ c.dependencies

/-- The compression level, unless it is the default. -/
def level? (c : Configuration) : Option Int :=
  if c.compressionLevel = defaultLevel then none else some c.compressionLevel

/-- The dependencies by the names of their artifacts; those of one name keep their order. -/
def sortedDependencies (c : Configuration) : List Artifact :=
  c.dependencies.mergeSort fun a b => Text.le a.artifactId b.artifactId

/-- The artifacts of the classpath: the project first, then the dependencies in order. -/
def classpath (c : Configuration) : List Artifact :=
  (c.project?.toList ++ c.sortedDependencies).filter Artifact.isArchive

/-- An artifact of the same name and version as one before it, if there is one. -/
def firstDuplicate? : (seen : List (Text × Text)) → List Artifact → Option Artifact
  | _, [] => none
  | seen, a :: rest =>
    if (a.artifactId, a.version) ∈ seen then some a
    else firstDuplicate? ((a.artifactId, a.version) :: seen) rest

end Configuration

end Jarsmith

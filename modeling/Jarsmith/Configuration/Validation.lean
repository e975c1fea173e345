import Jarsmith.Configuration.Model
import Jarsmith.Configuration.Record

/-!
# Reading configurations

What a document must look like to be a configuration. All problems are found at once, in the order
of the fields; only the rule that no artifact occurs twice is left for documents without other
problems.
-/

namespace Jarsmith

/-- The name of a group or an artifact, in which selectors find no mark. -/
def checkIdentifier (d : Document) : Checked Text :=
  d.checkName.andThen fun t =>
    if Selector.colon ∈ t ∨ Selector.star ∈ t then
      .wrong (.rejected (("标识符不能包含 ':' 或 '*': " : Text) ++ t)) d
    else .valid t

namespace Artifact

/-- The fields of an artifact. -/
def fields : List Text := ["group_id", "artifact_id", "version", "type", "file"]

/-- Reads an artifact. -/
def ofDocument (d : Document) : Checked Artifact :=
  d.checkRecord "ArtifactModel" fields fun r =>
    Artifact.mk <$> r.required "group_id" checkIdentifier
      <*> r.required "artifact_id" checkIdentifier
      <*> r.required "version" Document.checkName
      <*> r.optional "type" archiveType Document.checkText
      <*> r.required "file" Document.checkPath

end Artifact

namespace Selector

/-- Reads selectors one after another until one is malformed, which is then given back. -/
def ofTexts : List Text → Except Text (List Selector)
  | [] => .ok []
  | t :: ts =>
    match ofText? t.trimBlanks with
    | none => .error t.trimBlanks
    | some s => (ofTexts ts).map (s :: ·)

/-- Reads the selectors of a task. A selector counts once. -/
def checkAll (d : Document) : Checked (List Selector) :=
  (d.checkSomeOf Document.checkText).andThen fun ts =>
    match ofTexts ts with
    | .ok selectors => .valid (Text.unique selectors)
    | .error t => .wrong (.rejected (("构件选择器格式不正确: '" : Text) ++ t ++
        ("'，支持 *:*、group:*、group:artifact" : Text))) d

/-- The field of a task that holds its selectors. -/
def field : Text := "artifacts"

/-- Reads a task that has nothing but selectors. -/
def ofDocument (d : Document) : Checked (List Selector) :=
  d.checkRecord "TaskModel" [field] fun r => r.required field checkAll

end Selector

/-- Reads names. Empty ones are left out, and a name counts once. -/
def checkNames (d : Document) : Checked (List Text) :=
  (d.checkListOf Document.checkText).map fun ts =>
    Text.unique ((ts.map Text.trimBlanks).filter (!·.isEmpty))

/-- Reads a transformer. -/
def checkTransformer (d : Document) : Checked Transformer :=
  match d.asText? with
  | some (.valid t) =>
    match Transformer.ofName? t with
    | some transformer => .valid transformer
    | none => .wrong .notTransformer d
  | _ => .wrong .notTransformer d

namespace MinifyTask

/-- The fields of a minification task. -/
def fields : List Text :=
  [Selector.field, "entry_points", "property_entry_points", "service_entry_points"]

/-- Reads a minification task. -/
def ofDocument (d : Document) : Checked MinifyTask :=
  d.checkRecord "MinifyModel" fields fun r =>
    MinifyTask.mk <$> r.required Selector.field Selector.checkAll
      <*> r.optional "entry_points" [] checkNames
      <*> r.optional "property_entry_points" [] checkNames
      <*> r.optional "service_entry_points" [] checkNames

end MinifyTask

namespace ModifyTask

/-- The fields of a modification task. -/
def fields : List Text := [Selector.field, "transformers"]

/-- Reads a modification task. -/
def ofDocument (d : Document) : Checked ModifyTask :=
  d.checkRecord "ModifyModel" fields fun r =>
    ModifyTask.mk <$> r.required Selector.field Selector.checkAll
      <*> r.optional "transformers" [] (Document.checkListOf checkTransformer)

end ModifyTask

namespace Configuration

/-- The version that configurations have if they name none. -/
abbrev firstVersion : Int := 1

/-- The versions that are known. -/
def versions : List Int := [firstVersion]

/-- Reads the version of a configuration. -/
def checkVersion (d : Document) : Checked Int :=
  (d.checkIntegerIn 1 none).andThen fun n =>
    if n ∈ versions then .valid n
    else .wrong (.rejected (("不支持的配置版本 " : Text) ++ Text.ofInt n ++
      ("，支持的版本: " : Text) ++ (Document.list (versions.map .int)).shown)) d

/-- Reads the part of a configuration that tells of the configuration itself. -/
def checkHead (d : Document) : Checked Int :=
  d.checkRecord "ConfigModel" ["version"] fun r => r.optional "version" firstVersion checkVersion

/-- The word for the default compression level. -/
def defaultWord : Text := "default"

/-- Reads a compression level. -/
def checkLevel (d : Document) : Checked Int :=
  let isDefault := match d with
    | .text t => t.trimBlanks.toLower == defaultWord
    | _ => false
  if isDefault then .valid defaultLevel else d.checkIntegerIn defaultLevel (some 9)

/-- The fields of a configuration. -/
def fields : List Text :=
  ["config", "project", "dependencies", "output_directory", "compression_level", "strict_create",
    "minify", "modify"]

/-- What is said of an artifact that occurs a second time. -/
def duplicateMessage (a : Artifact) : Text :=
  ("构件重复: " : Text) ++ a.id ++ 0x3A :: a.version

/-- The rule that no two artifacts have one name and version. -/
def checkDistinct (d : Document) (c : Configuration) : Checked Configuration :=
  match firstDuplicate? [] c.artifacts with
  | none => .valid c
  | some a => .wrong (.rejected (duplicateMessage a)) d

/-- Reads a configuration, but for the rule on artifacts that occur twice. -/
def checkFields (d : Document) : Checked Configuration :=
  d.checkRecord "ClasspathConfig" fields fun r =>
    Configuration.mk <$> r.optional "config" firstVersion checkHead
      <*> r.optional "project" none (Document.checkOption Artifact.ofDocument)
      <*> r.optional "dependencies" [] (Document.checkListOf Artifact.ofDocument)
      <*> r.required "output_directory" Document.checkPath
      <*> r.optional "compression_level" defaultLevel checkLevel
      <*> r.optional "strict_create" false Document.checkBool
      <*> r.optional "minify" none (Document.checkOption MinifyTask.ofDocument)
      <*> r.optional "modify" none (Document.checkOption ModifyTask.ofDocument)

/-- Reads a configuration. -/
def ofDocument (d : Document) : Checked Configuration :=
  (checkFields d).andThen (checkDistinct d)

end Configuration

end Jarsmith

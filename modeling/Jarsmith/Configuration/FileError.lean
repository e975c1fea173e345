import Jarsmith.Configuration.Problem
import Jarsmith.FileSystem.Error
import Jarsmith.Text.Utf8
import Jarsmith.Yaml.Error

/-!
# What can go wrong with configuration files
-/

namespace Jarsmith.Configuration

/-- The endings of configuration files. -/
def fileEndings : List Text := [".yaml", ".yml"]

/-- Why a configuration cannot be read from a file, or written to one. -/
inductive FileError where
  | missing (path : Path)
  | notFile (path : Path)
  | badEnding (name : Text)
  | notUtf8 (path : Path)
  | notYaml (name : Text)
  /-- The file writes a value that does not exist. -/
  | noSuchValue (flaw : Yaml.Flaw) (reason : Text)
  | empty (name : Text)
  | notMapping (name type : Text)
  /-- The document is not a configuration. -/
  | invalid (problems : List Problem)
  | unwritable (path : Path) (reason : FileSystem.Error)

namespace FileError

/-- The text of an error. -/
def message : FileError → Text
  | missing path => ("配置文件不存在: " : Text) ++ path.toText
  | notFile path => ("配置文件不是文件: " : Text) ++ path.toText
  | badEnding name =>
    ("配置文件扩展名必须是 " : Text) ++ Text.joinWith " 或 " fileEndings ++ (": " : Text) ++ name
  | notUtf8 path => ("无法读取 " : Text) ++ path.toText ++ (": " : Text) ++ Utf8.invalidMessage
  | notYaml name => name ++ (" 不是合法的 YAML: " : Text) ++ Yaml.Error.malformed.message
  | noSuchValue _ reason => reason
  | empty name => ("配置文件为空: " : Text) ++ name
  | notMapping name type => name ++ (" 的根节点必须是映射，实际为 " : Text) ++ type
  | invalid ps => ("配置校验失败 (" : Text) ++ Text.ofNat ps.length ++ (" 个错误)" : Text)
  | unwritable path reason =>
    ("无法写出配置文件 " : Text) ++ path.toText ++ (": " : Text) ++ reason.message

/-- The kind of a value that does not exist. -/
def flawKind : Yaml.Flaw → Text
  | .value => "ValueError"
  | .overflow => "OverflowError"
  | .type => "TypeError"
  | .key => "KeyError"
  | .index => "IndexError"

/-- The kind of an error, as reports name it. -/
def kind : FileError → Text
  | invalid _ => "ConfigValidationError"
  | noSuchValue flaw _ => flawKind flaw
  | _ => "ConfigError"

end FileError

end Jarsmith.Configuration

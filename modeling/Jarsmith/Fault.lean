import Jarsmith.Archive.Error
import Jarsmith.ClassFile.Error
import Jarsmith.Configuration.FileError
import Jarsmith.FileSystem.Error
import Jarsmith.Properties
import Jarsmith.Text.Size

/-!
# What can go wrong in a run

A fault is a cause together with the steps that it went through: reading a member, transforming a
class, a step of a build. Every fault has a kind, which reports name, a text, and possibly the fault
that caused it.
-/

namespace Jarsmith

/-- The reasons why an operation on archives, classes or files fails. -/
inductive Fault where
  /-- Bytes that should be UTF-8 are not. -/
  | notUtf8
  /-- A text with a surrogate cannot be written in UTF-8. -/
  | unencodable (text : Text)
  /-- A class file is malformed. -/
  | classFile (error : ClassFile.Error)
  /-- An archive, or a member of one, cannot be read. -/
  | archive (error : Archive.Error)
  /-- A property file is malformed. -/
  | properties (error : Properties.Error)
  /-- The subject cannot be parsed, for the reason given. -/
  | unparsable (subject : Text) (cause : Fault)
  /-- A member is stored by a method that is not supported. -/
  | storageMethod (archive member : Text) (method : Nat)
  /-- The transformation of the subject failed, for the reason given. -/
  | transformation (subject : Text) (cause : Fault)
  /-- The transformation of a member gave something else than bytes. -/
  | notBytes (archive member type : Text)
  /-- A number does not fit its field of a class file. -/
  | fieldOverflow
  /-- An operation on files failed. -/
  | files (error : FileSystem.Error)
  /-- The file of an artifact is not there. -/
  | noArtifactFile (id : Text) (file : Path)
  /-- A function is asked for before it was made by the named operation. -/
  | notPrepared (operation : Text)
  /-- No transformer has the name. -/
  | unknownTransformer (name : Text)
  /-- A size is too large to be shown. -/
  | sizeOverflow
  /-- A configuration file cannot be read or written. -/
  | configuration (error : Configuration.FileError)
  /-- A text to be shown closes a tag that is not open. -/
  | unbalancedMarkup
  /-- A function that was handed in failed, with an error of the given kind and text. -/
  | raised (kind message : Text)
  /-- An activity of a build failed, for the reason given. -/
  | build (activity : Text) (cause : Fault)

namespace Fault

/-- The text of a fault. -/
def message : Fault → Text
  | notUtf8 => Utf8.invalidMessage
  | unencodable text => Utf8.unencodableMessage text
  | classFile e => e.message
  | archive e => e.message
  | properties e => e.message
  | unparsable subject cause => subject ++ (": " : Text) ++ cause.message
  | storageMethod owner member method =>
    owner ++ ("!" : Text) ++ member ++ (": 不支持的存储方式 " : Text) ++ Text.ofNat method ++
      ("（仅支持 stored/deflated）" : Text)
  | transformation subject cause => subject ++ (": " : Text) ++ cause.message
  | notBytes owner member type =>
    owner ++ ("!" : Text) ++ member ++ (": 修改函数返回了 " : Text) ++ type ++
      ("，应为 bytes" : Text)
  | fieldOverflow => "a number does not fit its field"
  | files e => e.message
  | noArtifactFile id file =>
    ("构件文件不存在: " : Text) ++ id ++ (" -> " : Text) ++ file.toText
  | notPrepared operation => ("尚未调用 " : Text) ++ operation
  | unknownTransformer name => Text.quoted name ++ (" is not a valid TransformerName" : Text)
  | sizeOverflow => Text.sizeOverflowMessage
  | configuration e => e.message
  | unbalancedMarkup => "closing tag doesn't match any open tag"
  | raised _ message => message
  | build activity cause => activity ++ ("失败: " : Text) ++ cause.message

/-- The fault that caused a fault. -/
def cause? : Fault → Option Fault
  | classFile (.badUtf8 _) => some notUtf8
  | unparsable _ cause => some cause
  | transformation _ cause => some cause
  | build _ cause => some cause
  | _ => none

/-- A fault and its causes, outermost first. -/
def chain : Fault → List Fault
  | classFile (.badUtf8 index) => [classFile (.badUtf8 index), notUtf8]
  | unparsable subject cause => unparsable subject cause :: cause.chain
  | transformation subject cause => transformation subject cause :: cause.chain
  | build activity cause => build activity cause :: cause.chain
  | fault => [fault]

/-- The kind of an error of an archive. -/
def archiveKind : Archive.Error → Text
  | .badUtf8 => "UnicodeDecodeError"
  | .laterVersion _ | .patchedData | .strongEncryption => "NotImplementedError"
  | .encrypted _ => "RuntimeError"
  | .unreachableOffset => "OSError"
  | .hugeOffset => "ValueError"
  | .badStream => "error"
  | .missingData => "EOFError"
  | _ => "BadZipFile"

/-- The kind of an error of files. -/
def filesKind : FileSystem.Error → Text
  | .failed .missing _ => "FileNotFoundError"
  | .failed .exists _ | .outputExists _ => "FileExistsError"
  | .failed .notDirectory _ => "NotADirectoryError"
  | .failed .isDirectory _ => "IsADirectoryError"
  | .failed .nameTooLong _ => "OSError"
  | .sameFile _ _ => "SameFileError"
  | .nulByte => "ValueError"

/-- The kind of a fault, as reports name it. -/
def kind : Fault → Text
  | notUtf8 => "UnicodeDecodeError"
  | unencodable _ => "UnicodeEncodeError"
  | classFile _ | unparsable _ _ => "ParseError"
  | archive e => archiveKind e
  | properties _ | unknownTransformer _ => "ValueError"
  | storageMethod _ _ _ => "UnsupportedStorageError"
  | transformation _ _ | notBytes _ _ _ => "TransformError"
  | fieldOverflow => "error"
  | files e => filesKind e
  | noArtifactFile _ _ => "FileNotFoundError"
  | notPrepared _ => "RuntimeError"
  | sizeOverflow => "OverflowError"
  | configuration e => e.kind
  | unbalancedMarkup => "MarkupError"
  | raised kind _ => kind
  | build _ _ => "BuildError"

end Fault

end Jarsmith

import Jarsmith.Text.Quoted
import Jarsmith.FileSystem.Path

/-!
# What can go wrong with files
-/

namespace Jarsmith.FileSystem

/-- Why an operation on a path failed. -/
inductive Reason where
  | missing
  | exists
  | notDirectory
  | isDirectory
  | nameTooLong
  deriving DecidableEq, Repr

/-- The number by which systems know the reason. -/
def Reason.number : Reason → Nat
  | .missing => 2
  | .exists => 17
  | .notDirectory => 20
  | .isDirectory => 21
  | .nameTooLong => 36

/-- The text of a reason. -/
def Reason.message : Reason → Text
  | .missing => "No such file or directory"
  | .exists => "File exists"
  | .notDirectory => "Not a directory"
  | .isDirectory => "Is a directory"
  | .nameTooLong => "File name too long"

/-- A failed operation. -/
inductive Error where
  /-- The operation on the path failed for the reason. -/
  | failed (reason : Reason) (path : Path)
  /-- The file to be written is there already. -/
  | outputExists (path : Path)
  /-- A file cannot be copied to itself. -/
  | sameFile (source target : Path)
  /-- No file can have the path, since a part of it holds a NUL. -/
  | nulByte
  deriving DecidableEq, Repr

/-- A number, a text and a path, as errors of files are written. -/
def numbered (number : Nat) (text : Text) (path : Path) : Text :=
  ("[Errno " : Text) ++ Text.ofNat number ++ ("] " : Text) ++ text ++ (": " : Text) ++
    Text.quoted path.toText

/-- The text of an error. -/
def Error.message : Error → Text
  | .failed reason path => numbered reason.number reason.message path
  | .outputExists path => numbered Reason.exists.number "输出文件已存在" path
  | .sameFile source target =>
    ("PosixPath(" : Text) ++ Text.quoted source.toText ++ (") and PosixPath(" : Text) ++
      Text.quoted target.toText ++ (") are the same file" : Text)
  | .nulByte => "embedded null byte"

end Jarsmith.FileSystem

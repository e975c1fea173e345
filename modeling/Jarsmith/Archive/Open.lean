import Jarsmith.Archive.Contents
import Jarsmith.Fault
import Jarsmith.FileSystem.Basic

/-!
# Archives in files

An archive is opened by reading its file and its directory; its members are read from the same
bytes. What is malformed is reported with the path of the archive or with the name of the member.
-/

namespace Jarsmith

/-- An archive that was opened: its path, its bytes, and what its directory says. -/
structure OpenArchive where
  path : Path
  bytes : Bytes
  archive : Archive

namespace OpenArchive

/-- Opens the archive at a path. -/
def load (files : FileSystem) (path : Path) : Except Fault OpenArchive := do
  let bytes ← (files.read path).mapError .files
  match Archive.ofBytes bytes with
  | .ok archive => return { path, bytes, archive }
  | .error e =>
    if e.isMalformed then
      throw (.unparsable (("无法读取归档 " : Text) ++ path.toText) (.archive e))
    else throw (.archive e)

/-- A member as reports name it: the file name of the archive, and the name of the member. -/
def label (a : OpenArchive) (member : Text) : Text := a.path.name ++ ("!" : Text) ++ member

/-- The storage method of a member must be one that is supported. -/
def checkMethod (a : OpenArchive) (m : Archive.Member) : Except Fault Unit :=
  if m.method = Archive.storedMethod ∨ m.method = Archive.deflatedMethod then .ok ()
  else .error (.storageMethod a.path.name m.name m.method)

/-- The data of a member, read from the given bytes of the archive's file. -/
def readFrom (a : OpenArchive) (bytes : Bytes) (m : Archive.Member) : Except Fault Bytes := do
  a.checkMethod m
  match m.contents bytes with
  | .ok data => return data
  | .error e =>
    if e.isMalformed then throw (.unparsable (a.label m.name) (.archive e))
    else throw (.archive e)

/-- The data of a member. -/
def read (a : OpenArchive) (m : Archive.Member) : Except Fault Bytes := a.readFrom a.bytes m

/-- The member of a name; of several, the last one. -/
def member? (a : OpenArchive) (name : Text) : Option Archive.Member :=
  a.archive.members.reverse.find? (·.name = name)

end OpenArchive

end Jarsmith

import Jarsmith.Archive.Directory
import Jarsmith.Bytes.Crc32
import Jarsmith.Deflate.Stream
import Jarsmith.Text.Utf8

/-!
# Writing archives

An archive is written as the headers and data of its members, the directory, and the end record. A
name is in UTF-8, and flagged so, exactly if it is not ASCII. A member whose system marks are zero
is given read and write access for its owner.

There are no records of large archives: a count of more than 65535 members, or a size or place from
4 GiB on, does not fit its field, and the bytes are then not those of an archive that says it with
such records.
-/

namespace Jarsmith.Archive

/-- A member to be written: what is recorded of it, its data, and how hard they are made small. -/
structure NewMember where
  entry : Entry
  data : Bytes
  level : Deflate.Level
  deriving DecidableEq, Repr

/-- The version of the format that a written member asks for, in tenths. -/
abbrev writtenVersion : Nat := 20

/-- The system marks of a regular file that its owner may read and write. -/
abbrev ownerAccess : Nat := 0x1800000

namespace NewMember

/-- The name is ASCII. -/
def isAscii (m : NewMember) : Bool := m.entry.name.all (· < 0x80)

/-- The bytes of the name. -/
def nameBytes (m : NewMember) : Bytes := m.entry.name.flatMap Utf8.encodePoint

/-- The length of the name fits its field. -/
def isWritable (m : NewMember) : Bool := m.nameBytes.length < 0x10000

/-- The stored form of the data. -/
def stored (m : NewMember) : Bytes :=
  if m.entry.method = deflatedMethod then Deflate.deflate m.level m.data else m.data

/-- The fields that header and directory share: version, flags, method, time, day, checksum, sizes
and the lengths of name and extra field. -/
def sharedFields (m : NewMember) : Bytes :=
  Bytes.ofLittle 2 writtenVersion ++
    Bytes.ofLittle 2 (if m.isAscii then 0 else utf8Flag) ++
    Bytes.ofLittle 2 m.entry.method ++ Bytes.ofLittle 2 m.entry.time ++
    Bytes.ofLittle 2 m.entry.date ++ Bytes.ofLittle 4 (Crc32.checksum m.data) ++
    Bytes.ofLittle 4 m.stored.length ++ Bytes.ofLittle 4 m.data.length ++
    Bytes.ofLittle 2 m.nameBytes.length ++ Bytes.ofLittle 2 m.entry.extra.length

/-- The header and the data of a member. -/
def body (m : NewMember) : Bytes :=
  headerMark ++ m.sharedFields ++ m.nameBytes ++ m.entry.extra ++ m.stored

/-- The entry of the directory for a member whose header is at `offset`. -/
def directoryEntry (m : NewMember) (offset : Nat) : Bytes :=
  let external := if m.entry.external = 0 then ownerAccess else m.entry.external
  entryMark ++ Bytes.ofLittle 1 writtenVersion ++ Bytes.ofLittle 1 m.entry.system ++
    m.sharedFields ++ Bytes.ofLittle 2 m.entry.comment.length ++ Bytes.ofLittle 2 0 ++
    Bytes.ofLittle 2 m.entry.internal ++ Bytes.ofLittle 4 external ++
    Bytes.ofLittle 4 offset ++ m.nameBytes ++ m.entry.extra ++ m.entry.comment

end NewMember

/-- The directory of members whose first header is at `offset`. -/
def directoryBytes : (offset : Nat) → List NewMember → Bytes
  | _, [] => []
  | offset, m :: members =>
    m.directoryEntry offset ++ directoryBytes (offset + m.body.length) members

/-- The end record for `count` members, whose directory has the given size and place. -/
def endRecord (count size offset : Nat) : Bytes :=
  endMark ++ Bytes.ofLittle 2 0 ++ Bytes.ofLittle 2 0 ++ Bytes.ofLittle 2 count ++
    Bytes.ofLittle 2 count ++ Bytes.ofLittle 4 size ++ Bytes.ofLittle 4 offset ++
    Bytes.ofLittle 2 0

/-- The bytes of an archive with the given members, in their order, if it needs no records of large
archives: there are at most 65535 members, and sizes and places are below 4 GiB. -/
def encode (members : List NewMember) : Bytes :=
  let bodies := members.flatMap NewMember.body
  let directory := directoryBytes 0 members
  bodies ++ directory ++ endRecord members.length directory.length bodies.length

end Jarsmith.Archive

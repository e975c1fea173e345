import Jarsmith.Archive.Directory
import Jarsmith.Bytes.Crc32
import Jarsmith.Deflate.Inflate

/-!
# The data of a member

The data stand after the member's header, which repeats the name. The directory's values decide how
many bytes they are, stored and in the end; what is more than that is cut off, and the checksum of
the rest must be the one declared. Where the file ends before the stored bytes do, those that are
there must give all of the data, or be a stream that tells its end.
-/

namespace Jarsmith.Archive

/-- The least number that is not a signed number of 64 bits. -/
abbrev wordEnd : Int := 0x8000000000000000

/-- The last place that a file can have. -/
abbrev greatestOffset : Int := 0xFFFFFFFF000

/-- The bytes of the header of a member, its texts included, must agree with the directory. Gives
the place of the data. -/
def Member.dataPlace (m : Member) (bytes : Bytes) : Except Error Int := do
  if wordEnd ≤ m.offset then throw .hugeOffset
  if m.offset < 0 ∨ greatestOffset < m.offset then throw .unreachableOffset
  let header := bytes.drop m.offset.toNat
  if (header.take headerSize).length < headerSize then throw .truncatedHeader
  if !headerMark.isPrefixOf header then throw .badHeaderMagic
  let nameSize := Bytes.littleAt header 26 2
  let extraSize := Bytes.littleAt header 28 2
  let nameBytes := Bytes.slice header headerSize nameSize
  let extra := Bytes.slice header (headerSize + nameSize) extraSize
  if hasBit m.flags 0x20 then throw .patchedData
  if hasBit m.flags 0x40 then throw .strongEncryption
  let name ← decodeName (Bytes.littleAt header 6 2) nameBytes
  if name ≠ m.fullName then throw (.nameDiffers m.fullName nameBytes)
  return m.offset + (headerSize + nameBytes.length + extra.length : Nat)

/-- What stored bytes stand for, by the storage method. Only a stream tells its end. -/
def decompress (method : Nat) (stored : Bytes) : Except Error Deflate.Inflated :=
  if method = deflatedMethod then
    match Deflate.inflate stored with
    | some found => .ok found
    | none => .error .badStream
  else .ok ⟨stored, false⟩

/-- The data of `size` bytes, or of fewer, that `count` stored bytes stand for, of which those that
are there are given. -/
def unpack (method count size : Nat) (stored : Bytes) : Except Error Bytes := do
  if stored.length < count ∧ stored = [] then throw .missingData
  let found ← decompress method stored
  if stored.length < count ∧ found.isComplete = false ∧ found.bytes.length < size then
    throw .missingData
  return found.bytes.take size

/-- The data of a member, whose storage method is one of the two that are read. -/
def Member.contents (m : Member) (bytes : Bytes) : Except Error Bytes := do
  let place ← m.dataPlace bytes
  if place + m.compressedSize > m.limit then throw (.overlapped m.fullName)
  if hasBit m.flags 1 then throw (.encrypted m.name)
  let contents ← unpack m.method m.compressedSize m.size
    (Bytes.slice bytes place.toNat m.compressedSize)
  if Crc32.checksum contents = m.checksum then return contents
  else throw (.badChecksum m.name)

end Jarsmith.Archive

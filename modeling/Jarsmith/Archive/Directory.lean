import Jarsmith.Text.CodePage
import Jarsmith.Archive.Error
import Jarsmith.Archive.Member

/-!
# The directory of an archive

An archive ends with a record that says how large its directory is and where it begins. Data may
stand before the archive: what counts is where the end record is, and all offsets are moved by the
difference. The directory is read until its size is used up, whatever number of entries is declared.
-/

namespace Jarsmith

/-- An archive that was read: its members in the order of the directory. -/
structure Archive where
  members : List Archive.Member
  comment : Bytes
  deriving DecidableEq, Repr

namespace Archive

/-- The mark of a member's header. -/
def headerMark : Bytes := [0x50, 0x4B, 0x03, 0x04]

/-- The mark of an entry of the directory. -/
def entryMark : Bytes := [0x50, 0x4B, 0x01, 0x02]

/-- The mark of the end record. -/
def endMark : Bytes := [0x50, 0x4B, 0x05, 0x06]

/-- The mark of the end record of a large archive. -/
def largeEndMark : Bytes := [0x50, 0x4B, 0x06, 0x06]

/-- The mark of the record that tells where the end record of a large archive is. -/
def locatorMark : Bytes := [0x50, 0x4B, 0x06, 0x07]

/-- The size of the end record without its comment. -/
abbrev endSize : Nat := 22

/-- The size of an entry of the directory without its texts. -/
abbrev entrySize : Nat := 46

/-- The size of a member's header without its texts. -/
abbrev headerSize : Nat := 30

/-- The size of the end record of a large archive. -/
abbrev largeEndSize : Nat := 56

/-- The size of the record that tells where the end record of a large archive is. -/
abbrev locatorSize : Nat := 20

/-- The latest version of the format that is read, in tenths. -/
abbrev latestVersion : Nat := 63

/-- Where the directory is: its size, its declared offset, and the place after it. -/
structure EndRecord where
  size : Nat
  offset : Nat
  /-- Where the directory must have ended. -/
  place : Int
  comment : Bytes

/-- The last place in `bytes` at which `mark` begins, counted from `place`. -/
def lastPlace? (mark : Bytes) : (bytes : Bytes) → (place : Nat) → Option Nat
  | [], _ => none
  | b :: bytes, place =>
    (lastPlace? mark bytes (place + 1)).or
      (if mark.isPrefixOf (b :: bytes) then some place else none)

/-- The end record at `place`, with a comment or the part of it that is there. -/
def EndRecord.at (bytes : Bytes) (place : Nat) : EndRecord :=
  let record := bytes.drop place
  { size := Bytes.littleAt record 12 4
    offset := Bytes.littleAt record 16 4
    place := place
    comment := Bytes.slice record endSize (Bytes.littleAt record 20 2) }

/-- The place of the end record: the last 22 bytes if they are one without a comment, else the last
mark in the range that a comment leaves. -/
def endPlace? (bytes : Bytes) : Option Nat :=
  let size := bytes.length
  if size < endSize then none
  else
    let last := bytes.drop (size - endSize)
    if endMark.isPrefixOf last && Bytes.littleAt last 20 2 == 0 then some (size - endSize)
    else
      let start := size - (0x10000 + endSize)
      (lastPlace? endMark (bytes.drop start) start).filter (· + endSize ≤ size)

/-- The record of a large archive takes the place of the values of the end record `found`, if the
two records that it takes stand before it. There must be room for the first of them wherever the
second one is. -/
def EndRecord.enlarge (bytes : Bytes) (place : Nat) (found : EndRecord) :
    Except Error EndRecord :=
  let locator := Bytes.slice bytes (place - locatorSize) locatorSize
  if place < locatorSize ∨ !locatorMark.isPrefixOf locator then .ok found
  else if Bytes.littleAt locator 4 4 ≠ 0 ∨ Bytes.littleAt locator 16 4 > 1 then
    .error .multipleParts
  else
    let start := place - locatorSize - largeEndSize
    let record := Bytes.slice bytes start largeEndSize
    if place < locatorSize + largeEndSize then .error .notAnArchive
    else if !largeEndMark.isPrefixOf record then .ok found
    else
      .ok { found with
        size := Bytes.littleAt record 40 8
        offset := Bytes.littleAt record 48 8
        place := start }

/-- The end record of an archive. -/
def EndRecord.find (bytes : Bytes) : Except Error EndRecord :=
  match endPlace? bytes with
  | none => .error .notAnArchive
  | some place => (EndRecord.at bytes place).enlarge bytes place

/-- The text of a name, in UTF-8 if the flags say so. -/
def decodeName (flags : Nat) (bytes : Bytes) : Except Error Text :=
  if hasBit flags utf8Flag then
    match Utf8.decode bytes with
    | some name => .ok name
    | none => .error .badUtf8
  else .ok (CodePage437.decode bytes)

/-- Sizes and offset of a member, which the record of large archives may replace. -/
structure Extent where
  size : Nat
  compressedSize : Nat
  offset : Nat

/-- The next value of eight bytes of a record of large archives, and the bytes after it. -/
def largeValue (field : Text) (record : Bytes) : Except Error (Nat × Bytes) :=
  if record.length < 8 then .error (.missingLargeValue field)
  else .ok (Bytes.littleAt record 0 8, record.drop 8)

/-- Replaces the values that refer to the record, in their order. -/
def Extent.enlarge (extent : Extent) (record : Bytes) : Except Error Extent := do
  let mut extent := extent
  let mut record := record
  if extent.size = 0xFFFFFFFF ∨ extent.size = 0xFFFFFFFFFFFFFFFF then
    let (value, rest) ← largeValue "File size" record
    extent := { extent with size := value }
    record := rest
  if extent.compressedSize = 0xFFFFFFFF then
    let (value, rest) ← largeValue "Compress size" record
    extent := { extent with compressedSize := value }
    record := rest
  if extent.offset = 0xFFFFFFFF then
    let (value, _) ← largeValue "Header offset" record
    extent := { extent with offset := value }
  return extent

/-- Walks the records of an extra field. -/
def Extent.ofExtra (extent : Extent) : (extra : Bytes) → Except Error Extent
  | a :: b :: c :: d :: rest =>
    let id := Bytes.little [a, b]
    let size := Bytes.little [c, d]
    if rest.length < size then .error (.corruptExtra id size)
    else if id = 1 then do
      let extent ← extent.enlarge (rest.take size)
      extent.ofExtra (rest.drop size)
    else extent.ofExtra (rest.drop size)
  | _ => .ok extent
termination_by extra => extra.length
decreasing_by all_goals (simp only [List.length_cons, List.length_drop]; omega)

/-- Reads one entry of the directory; its offset is moved by `shift`. The limit of the data is set
when all entries are known. Also gives the bytes after the entry. -/
def readEntry (shift : Int) (bytes : Bytes) : Except Error (Member × Bytes) := do
  if bytes.length < entrySize then throw .truncatedDirectory
  if !entryMark.isPrefixOf bytes then throw .badDirectoryMagic
  let field (offset width : Nat) : Nat := Bytes.littleAt bytes offset width
  let nameSize := field 28 2
  let extraSize := field 30 2
  let commentSize := field 32 2
  let flags := field 8 2
  let fullName ← decodeName flags (Bytes.slice bytes entrySize nameSize)
  let extra := Bytes.slice bytes (entrySize + nameSize) extraSize
  let comment := Bytes.slice bytes (entrySize + nameSize + extraSize) commentSize
  if field 6 1 > latestVersion then throw (.laterVersion (field 6 1))
  let extent ← Extent.ofExtra
    { size := field 24 4, compressedSize := field 20 4, offset := field 42 4 } extra
  let member : Member := {
    name := fullName.takeWhile (· ≠ 0)
    method := field 10 2
    date := field 14 2
    time := field 12 2
    comment, extra
    system := field 5 1
    internal := field 36 2
    external := field 38 4
    fullName, flags
    checksum := field 16 4
    compressedSize := extent.compressedSize
    size := extent.size
    offset := (extent.offset : Int) + shift
    limit := 0 }
  return (member, bytes.drop (entrySize + nameSize + extraSize + commentSize))

/-- Reads entries while there are bytes, of which every entry takes some; `fuel` is their number. -/
def readEntries (shift : Int) : (fuel : Nat) → Bytes → Except Error (List Member)
  | 0, _ => .ok []
  | _ + 1, [] => .ok []
  | fuel + 1, bytes => do
    let (member, rest) ← readEntry shift bytes
    return member :: (← readEntries shift fuel rest)

/-- The place at which the data of a member must have ended: its own header if an entry before it
has the same one, else the next header, else the directory. -/
def limitOf (directory : Int) (before members : List Member) (m : Member) : Int :=
  if before.any (·.offset == m.offset) then m.offset
  else
    let later := (members.map (·.offset)).filter (m.offset < ·)
    later.foldl (fun least offset => if offset < least then offset else least)
      (later.headD directory)

/-- Sets the limits of all members. -/
def setLimits (directory : Int) (members : List Member) : List Member :=
  members.zipIdx.map fun (m, i) =>
    { m with limit := limitOf directory (members.take i) members m }

/-- Reads the directory of an archive. -/
def ofBytes (bytes : Bytes) : Except Error Archive := do
  let record ← EndRecord.find bytes
  let shift := record.place - (record.size : Int) - (record.offset : Int)
  let directory := (record.offset : Int) + shift
  if directory < 0 then throw .badDirectoryOffset
  let entries := Bytes.slice bytes directory.toNat record.size
  let members ← readEntries shift entries.length entries
  return { members := setLimits directory members, comment := record.comment }

end Archive

end Jarsmith

import Jarsmith.Bytes.Field
import Jarsmith.Text.Basic

/-!
# Members of an archive

What the directory of an archive says of a member: its name, how its data are stored, when it was
changed, and the marks of the system that wrote it. `Entry` is the part that survives when the
member is written again; `Member` adds where the data are and what they must come to.
-/

namespace Jarsmith.Archive

/-- The storage method of data that stand as they are. -/
abbrev storedMethod : Nat := 0

/-- The storage method of a deflate stream. -/
abbrev deflatedMethod : Nat := 8

/-- What an archive records of a member besides its data. -/
structure Entry where
  name : Text
  method : Nat
  /-- The day, as seven bits of the year from 1980 on, four of the month and five of the day. -/
  date : Nat
  /-- The time, as five bits of the hour, six of the minute and five of half the seconds. -/
  time : Nat
  comment : Bytes
  extra : Bytes
  system : Nat
  internal : Nat
  external : Nat
  deriving DecidableEq, Repr

/-- Year, month, day, hour, minute and second of the last change. -/
def Entry.changed (e : Entry) : List Nat :=
  [e.date / 512 + 1980, e.date / 32 % 16, e.date % 32,
    e.time / 2048, e.time / 32 % 64, e.time % 32 * 2]

/-- A member of an archive that was read. -/
structure Member extends Entry where
  /-- The name before it was cut at a NUL. -/
  fullName : Text
  flags : Nat
  checksum : Nat
  compressedSize : Nat
  size : Nat
  /-- Where the header of the member begins in the file. -/
  offset : Int
  /-- Where the data of the member must have ended: at the next header or at the directory. -/
  limit : Int
  deriving DecidableEq, Repr

/-- Whether the bit of the given value is set. -/
def hasBit (flags value : Nat) : Bool := flags / value % 2 == 1

/-- The flag of a name in UTF-8. -/
abbrev utf8Flag : Nat := 0x800

end Jarsmith.Archive

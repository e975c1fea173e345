import Jarsmith.Bytes.Field
import Jarsmith.Text.Quoted
import Jarsmith.Text.Utf8

/-!
# What can be wrong with an archive
-/

namespace Jarsmith.Archive

/-- The reasons why bytes are not an archive, or why a member of one cannot be read. -/
inductive Error where
  /-- There is no end record. -/
  | notAnArchive
  /-- The archive is one part of several. -/
  | multipleParts
  /-- The directory would begin before the file. -/
  | badDirectoryOffset
  /-- The directory ends inside an entry. -/
  | truncatedDirectory
  /-- An entry of the directory begins with another mark. -/
  | badDirectoryMagic
  /-- An extra field is longer than the room that is left for it. -/
  | corruptExtra (id size : Nat)
  /-- The extra field of large archives lacks a value that the entry refers to. -/
  | missingLargeValue (field : Text)
  /-- The file ends inside the header of a member. -/
  | truncatedHeader
  /-- The header of a member begins with another mark. -/
  | badHeaderMagic
  /-- The directory and the header of a member disagree on its name. -/
  | nameDiffers (directory : Text) (header : Bytes)
  /-- The data of a member reach into the next one. -/
  | overlapped (name : Text)
  /-- The data of a member have another checksum. -/
  | badChecksum (name : Text)
  /-- A name that should be in UTF-8 is not. -/
  | badUtf8
  /-- The entry asks for a later version of the format, given in tenths. -/
  | laterVersion (tenths : Nat)
  /-- The member is stored as a patch. -/
  | patchedData
  /-- The member is encrypted, in the stronger of the two ways. -/
  | strongEncryption
  /-- The member is encrypted. -/
  | encrypted (name : Text)
  /-- The header of a member would begin before the file, or where no file reaches. -/
  | unreachableOffset
  /-- The place of a member's header is no signed number of 64 bits. -/
  | hugeOffset
  /-- The compressed data break a rule of their format. -/
  | badStream
  /-- The file ends before the data of a member do. -/
  | missingData
  deriving DecidableEq, Repr

namespace Error

/-- The text of an error. -/
def message : Error → Text
  | notAnArchive => "File is not a zip file"
  | multipleParts => "zipfiles that span multiple disks are not supported"
  | badDirectoryOffset => "Bad offset for central directory"
  | truncatedDirectory => "Truncated central directory"
  | badDirectoryMagic => "Bad magic number for central directory"
  | corruptExtra id size =>
    ("Corrupt extra field " : Text) ++ Text.hex 4 id ++ (" (size=" : Text) ++ Text.ofNat size ++
      (")" : Text)
  | missingLargeValue field =>
    ("Corrupt zip64 extra field. " : Text) ++ field ++ (" not found." : Text)
  | truncatedHeader => "Truncated file header"
  | badHeaderMagic => "Bad magic number for file header"
  | nameDiffers directory header =>
    ("File name in directory " : Text) ++ Text.quoted directory ++ (" and header " : Text) ++
      Text.quotedBytes header ++ (" differ." : Text)
  | overlapped name =>
    ("Overlapped entries: " : Text) ++ Text.quoted name ++ (" (possible zip bomb)" : Text)
  | badChecksum name => ("Bad CRC-32 for file " : Text) ++ Text.quoted name
  | badUtf8 => Utf8.invalidMessage
  | laterVersion tenths =>
    ("zip file version " : Text) ++ Text.ofNat (tenths / 10) ++ 0x2E :: Text.ofNat (tenths % 10)
  | patchedData => "compressed patched data (flag bit 5)"
  | strongEncryption => "strong encryption (flag bit 6)"
  | encrypted name =>
    ("File <ZipInfo filename=" : Text) ++ Text.quoted name ++
      ("> is encrypted, password required for extraction" : Text)
  | unreachableOffset => "[Errno 22] Invalid argument"
  | hugeOffset => "cannot fit 'int' into an offset-sized integer"
  | badStream => "Error -3 while decompressing data"
  | missingData => []

/-- The error says that the bytes are malformed, and not that they ask for what is not supported. -/
def isMalformed : Error → Bool
  | badUtf8 | laterVersion _ | patchedData | strongEncryption | encrypted _ | unreachableOffset
  | hugeOffset | badStream | missingData => false
  | _ => true

end Error

end Jarsmith.Archive

import Jarsmith.Bytes.Field

/-!
# Streams of stored blocks

Every sequence of bytes has a stream of stored blocks, each of at most 65535 bytes. It is five bytes
a block longer than the data.

`store` fills each block but the last. A compressor that is given room for its output piece by piece
may end a block earlier: with 32 KiB of room at first, data of 32768 bytes and more are cut into
other blocks than here, and shorter ones are one block in any case. The data are the same.
-/

namespace Jarsmith.Deflate

/-- A stored block from its length on: the length, the length inverted, and the bytes. -/
def storedPart (bytes : Bytes) : Bytes :=
  Bytes.ofLittle 2 bytes.length ++ Bytes.ofLittle 2 (0xFFFF - bytes.length) ++ bytes

/-- A stored block, which may be the last one of its stream. -/
def storedBlock (last : Bool) (bytes : Bytes) : Bytes :=
  (if last then 1 else 0) :: storedPart bytes

/-- The most bytes that a stored block holds. -/
abbrev blockSize : Nat := 0xFFFF

/-- A stream of stored blocks of the given bytes, each but the last as long as can be. From 32768
bytes on, a compressor whose output is taken piece by piece cuts the same bytes into other
blocks. -/
def store (bytes : Bytes) : Bytes :=
  if _h : blockSize < bytes.length then
    storedBlock false (bytes.take blockSize) ++ store (bytes.drop blockSize)
  else storedBlock true bytes
termination_by bytes.length
decreasing_by simp only [List.length_drop, blockSize] at *; omega

end Jarsmith.Deflate

import Jarsmith.Bytes.Field

/-!
# The checksum of archives

CRC-32 with the reversed polynomial `EDB88320`, starting from and ending with all bits inverted.
-/

namespace Jarsmith.Crc32

/-- Shifts one bit out of the register. -/
def shift (register : UInt32) : UInt32 :=
  if register &&& 1 = 1 then (register >>> 1) ^^^ 0xEDB88320 else register >>> 1

/-- Takes one byte into the register. -/
def step (register : UInt32) (b : UInt8) : UInt32 :=
  shift (shift (shift (shift (shift (shift (shift (shift (register ^^^ b.toUInt32))))))))

/-- The checksum of a sequence of bytes. -/
def checksum (bytes : Bytes) : Nat := (bytes.foldl step 0xFFFFFFFF ^^^ 0xFFFFFFFF).toNat

end Jarsmith.Crc32

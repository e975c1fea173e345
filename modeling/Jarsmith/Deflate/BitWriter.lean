import Jarsmith.Bytes.Field

/-!
# Writing bits

The counterpart of reading them: the first bit written is the least significant one of the first
byte.
-/

namespace Jarsmith.Deflate

/-- Bits that were written: the whole bytes, and those of a byte that was begun. -/
structure BitWriter where
  /-- The whole bytes. -/
  output : Array UInt8
  /-- The bits of the byte at hand, the first one least significant. -/
  pending : Nat
  /-- How many they are. -/
  count : Nat

namespace BitWriter

/-- Nothing written yet. -/
def empty : BitWriter := ⟨#[], 0, 0⟩

/-- Takes whole bytes out of `count` bits until less than a byte is left. -/
def drain (output : Array UInt8) (pending count : Nat) : BitWriter :=
  if 8 ≤ count then drain (output.push (pending % 256).toUInt8) (pending / 256) (count - 8)
  else ⟨output, pending, count⟩
termination_by count

/-- Writes a number of `n` bits, the least significant one first. -/
def bits (n value : Nat) (w : BitWriter) : BitWriter :=
  drain w.output (w.pending + value * Nat.pow 2 w.count) (w.count + n)

/-- Fills the byte at hand with zeros. -/
def align (w : BitWriter) : BitWriter := if w.count = 0 then w else w.bits (8 - w.count) 0

/-- Writes bytes after the byte at hand, which is filled with zeros. -/
def bytes (added : Bytes) (w : BitWriter) : BitWriter :=
  { w.align with output := w.align.output ++ added.toArray }

/-- The bytes written, the last one filled with zeros. -/
def toBytes (w : BitWriter) : Bytes := w.align.output.toList

end BitWriter

end Jarsmith.Deflate

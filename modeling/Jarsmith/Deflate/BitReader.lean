import Jarsmith.Bytes.Field

/-!
# Reading bits

Deflate takes the bits of a byte from the least significant one on.
-/

namespace Jarsmith.Deflate

/-- Bits still to be read: those left of a byte that was begun, and the bytes after it. -/
structure BitReader where
  /-- The bits left of the byte at hand, the next one least significant. -/
  pending : Nat
  /-- How many they are. -/
  count : Nat
  /-- The bytes not begun. -/
  rest : Bytes

namespace BitReader

/-- The bits of a sequence of bytes. -/
def ofBytes (bytes : Bytes) : BitReader := ⟨0, 0, bytes⟩

/-- The next bit, if there is one. -/
def bit? (r : BitReader) : Option (Nat × BitReader) :=
  if r.count = 0 then
    match r.rest with
    | [] => none
    | b :: rest => some (b.toNat % 2, ⟨b.toNat / 2, 7, rest⟩)
  else some (r.pending % 2, ⟨r.pending / 2, r.count - 1, r.rest⟩)

/-- The next `n` bits as a number, the first one least significant. -/
def bits? : (n : Nat) → BitReader → Option (Nat × BitReader)
  | 0, r => some (0, r)
  | n + 1, r => do
    let (low, r) ← r.bit?
    let (high, r) ← bits? n r
    return (low + 2 * high, r)

/-- The bytes from the next whole byte on. -/
def toBytes (r : BitReader) : Bytes := r.rest

/-- How many bits are left. -/
def size (r : BitReader) : Nat := r.count + 8 * r.rest.length

end BitReader

end Jarsmith.Deflate

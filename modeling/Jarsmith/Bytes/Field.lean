/-!
# Numbers in bytes

Fixed-width unsigned numbers, most significant byte first (`big`) as class files write them, or
least significant byte first (`little`) as archives do. Writing refuses a number that does not fit
its width; reading takes any bytes.
-/

namespace Jarsmith

/-- A sequence of bytes. -/
abbrev Bytes := List UInt8

namespace Bytes

/-- The number that bytes write, most significant first. -/
def big (bytes : Bytes) : Nat := bytes.foldl (fun n b => n * 256 + b.toNat) 0

/-- The number that bytes write, least significant first. -/
def little : Bytes → Nat
  | [] => 0
  | b :: bytes => b.toNat + 256 * little bytes

/-- The last `width` bytes of a number, least significant first. -/
def ofLittle : (width : Nat) → Nat → Bytes
  | 0, _ => []
  | width + 1, n => (n % 256).toUInt8 :: ofLittle width (n / 256)

/-- The last `width` bytes of a number, most significant first. -/
def ofBig (width n : Nat) : Bytes := (ofLittle width n).reverse

/-- A number in `width` bytes, most significant first, if it fits. -/
def ofBig? (width : Nat) (n : Int) : Option Bytes :=
  if 0 ≤ n ∧ n < (Nat.pow 256 width : Nat) then some (ofBig width n.toNat) else none

/-- The bytes from `offset` on, `count` of them or as many as there are. -/
def slice (bytes : Bytes) (offset count : Nat) : Bytes := (bytes.drop offset).take count

/-- The number in `width` bytes at `offset`, least significant first. -/
def littleAt (bytes : Bytes) (offset width : Nat) : Nat := little (slice bytes offset width)

end Bytes

end Jarsmith

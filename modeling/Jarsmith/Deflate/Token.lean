import Jarsmith.Deflate.Inflate

/-!
# Tokens

A block that is not stored is a sequence of tokens: a byte that stands for itself, or a match, which
copies bytes from some distance back. A match is written with two symbols, one for its length and
one for its distance, each with some extra bits.
-/

namespace Jarsmith.Deflate

/-- A step in describing a sequence of bytes. -/
inductive Token where
  /-- The next byte. -/
  | literal (byte : UInt8)
  /-- The next `length` bytes are those from `distance` back. -/
  | copied (length distance : Nat)
  deriving DecidableEq, Repr

/-- A symbol and the extra bits that follow it. -/
structure Coded where
  symbol : Nat
  /-- How many extra bits there are. -/
  extraBits : Nat
  extra : Nat
  deriving DecidableEq, Repr

/-- The last entry of a table whose least value does not exceed `value`. -/
def Coded.ofTable (table : Array (Nat × Nat)) (value : Nat) : Coded :=
  let symbol := (table.toList.takeWhile fun entry => entry.1 ≤ value).length - 1
  let entry := table.getD symbol (0, 0)
  ⟨symbol, entry.2, value - entry.1⟩

namespace Token

/-- How many bytes a token stands for. -/
def size : Token → Nat
  | literal _ => 1
  | copied length _ => length

/-- The symbol of a byte or length. -/
def first : Token → Coded
  | literal byte => ⟨byte.toNat, 0, 0⟩
  | copied length _ =>
    let c := Coded.ofTable lengthTable length
    { c with symbol := c.symbol + 257 }

/-- The symbol of a distance. -/
def second? : Token → Option Coded
  | literal _ => none
  | copied _ distance => some (Coded.ofTable distanceTable distance)

end Token

end Jarsmith.Deflate

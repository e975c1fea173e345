import Jarsmith.Deflate.BitWriter
import Jarsmith.Deflate.Token

/-!
# Code words

The words of a prefix code follow from their lengths, in the same order as in decoding. A word is
written from its most significant bit on, so it is kept with its bits reversed.
-/

namespace Jarsmith.Deflate

/-- The word of a symbol; a length of zero means that it has none. -/
structure Word where
  length : Nat
  /-- The word as a number whose least significant bit is written first. -/
  reversed : Nat
  deriving DecidableEq, Repr

/-- The lowest `n` bits of a number in reversed order. -/
def reverseBits : (n : Nat) → Nat → Nat
  | 0, _ => 0
  | n + 1, value => value % 2 * Nat.pow 2 n + reverseBits n (value / 2)

/-- The first word of each length, where `counts` are the numbers of words of each length. -/
def firstWords : (counts : List Nat) → (first : Nat) → List Nat
  | [], _ => []
  | n :: counts, first => first :: firstWords counts (2 * (first + n))

/-- The words of the given lengths, where `next` are the next words of each length from 1 on. -/
def wordsFrom : (lengths : List Nat) → (next : List Nat) → List Word
  | [], _ => []
  | 0 :: lengths, next => ⟨0, 0⟩ :: wordsFrom lengths next
  | (n + 1) :: lengths, next =>
    ⟨n + 1, reverseBits (n + 1) (next.getD n 0)⟩ :: wordsFrom lengths (next.modify n (· + 1))

/-- The words of a code by symbol. -/
abbrev Words := Array Word

namespace Words

/-- The words of the given lengths. -/
def ofLengths (lengths : List Nat) : Words :=
  (wordsFrom lengths (firstWords (Code.countsOf lengths) 0)).toArray

/-- The word of a symbol. -/
def get (words : Words) (symbol : Nat) : Word := words.getD symbol ⟨0, 0⟩

/-- How many bits a symbol and its extra bits take. -/
def size (words : Words) (c : Coded) : Nat := (words.get c.symbol).length + c.extraBits

/-- Writes a symbol and its extra bits. -/
def write (words : Words) (c : Coded) (w : BitWriter) : BitWriter :=
  let word := words.get c.symbol
  (w.bits word.length word.reversed).bits c.extraBits c.extra

end Words

end Jarsmith.Deflate

import Jarsmith.Deflate.BitReader

/-!
# Prefix codes

A prefix code is given by the length of each symbol's code word. The words of one length are
consecutive numbers in the order of their symbols, and follow the words of the shorter lengths. So
the counts of the lengths and the symbols in the order of their words are all that decoding needs.
-/

namespace Jarsmith.Deflate

/-- A prefix code: how many words have the lengths 1, 2, …, and the symbols in word order. -/
structure Code where
  counts : List Nat
  symbols : Array Nat

/-- What the next bits are. -/
inductive Decoded where
  /-- A code word, and the bits after it. -/
  | symbol (value : Nat) (rest : BitReader)
  /-- The beginning of a code word, after which there are no more bits. -/
  | exhausted
  /-- No code word. -/
  | invalid

namespace Code

/-- The number of words of each length from 1 up to the longest. -/
def countsOf (lengths : List Nat) : List Nat :=
  (List.range (lengths.foldl max 0)).map fun i => lengths.count (i + 1)

/-- The words left over when each count is taken from what the shorter words leave, doubled at
every length; `none` if a count takes more than is left. -/
def unused? : (counts : List Nat) → (left : Nat) → Option Nat
  | [], left => some left
  | n :: counts, left => if n ≤ 2 * left then unused? counts (2 * left - n) else none

/-- The code with the given lengths, where zero means no word. -/
def ofLengths (lengths : List Nat) : Code where
  counts := countsOf lengths
  symbols := ((List.range (lengths.foldl max 0)).flatMap fun i =>
    (lengths.zipIdx.filter fun (length, _) => length = i + 1).map Prod.snd).toArray

/-- A code that may decode data: no word too many, and words missing only if there is no word at
all or, where `single` allows it, one word of one bit. -/
def isUsable (single : Bool) (c : Code) : Bool :=
  match unused? c.counts 1 with
  | none => false
  | some unused => unused == 0 || c.counts.isEmpty || (single && c.counts == [1])

/-- Reads bits until they are a word: `word` are the bits so far, `first` the first word of their
length, and `before` the number of words shorter than that. -/
def decodeFrom (symbols : Array Nat) :
    (counts : List Nat) → (word first before : Nat) → BitReader → Decoded
  | [], _, _, _, _ => .invalid
  | n :: counts, word, first, before, r =>
    match r.bit? with
    | none => .exhausted
    | some (b, r) =>
      let word := 2 * word + b
      let first := 2 * first
      if word < first + n then .symbol (symbols.getD (before + (word - first)) 0) r
      else decodeFrom symbols counts word (first + n) (before + n) r

/-- Reads the next symbol. A code without words takes a bit to find that out. -/
def decode (c : Code) (r : BitReader) : Decoded :=
  if c.counts.isEmpty then (if r.size = 0 then .exhausted else .invalid)
  else decodeFrom c.symbols c.counts 0 0 0 r

end Code

end Jarsmith.Deflate

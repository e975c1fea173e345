import Jarsmith.Deflate.CodeLengths
import Jarsmith.Deflate.Description
import Jarsmith.Deflate.Optimal
import Jarsmith.Deflate.Stored
import Jarsmith.Deflate.Word

/-!
# Writing blocks

A block is written in the shortest of three ways: its bytes as they are, its tokens in the fixed
codes, or its tokens in codes made for them, which are written before them. Between ways of equal
length the earlier one is taken.
-/

namespace Jarsmith.Deflate

/-- A block: tokens, and the bytes that they stand for. -/
structure Block where
  tokens : List Token
  bytes : Bytes

/-- How many tokens a block has that is not the last one. -/
abbrev blockTokens : Nat := 16383

/-- The blocks of a description. A byte left at its end goes to the last block, however full it
is. -/
def blocksOf (last? : Option UInt8) (tokens : List Token) (bytes : Bytes) : List Block :=
  if _h : blockTokens ≤ tokens.length then
    let taken := tokens.take blockTokens
    let size := taken.foldr (fun t n => t.size + n) 0
    ⟨taken, bytes.take size⟩ :: blocksOf last? (tokens.drop blockTokens) (bytes.drop size)
  else [⟨tokens ++ last?.toList.map Token.literal, bytes⟩]
termination_by tokens.length
decreasing_by simp only [List.length_drop, blockTokens] at *; omega

/-- How often each symbol below `count` occurs. -/
def tally (count : Nat) (symbols : List Nat) : List Nat :=
  (symbols.foldl (fun counts symbol => counts.modify symbol (· + 1))
    (Array.replicate count 0)).toList

/-- The symbol of the end of a block. -/
abbrev endSymbol : Nat := 256

/-- The lengths up to the last one that is not zero. -/
def withoutZeros (lengths : List Nat) : List Nat :=
  (lengths.reverse.dropWhile (· == 0)).reverse

/-- The lengths of two codes, for bytes and lengths and for distances. -/
structure CodePair where
  lengths : List Nat
  distances : List Nat
  deriving DecidableEq, Repr

namespace CodePair

/-- The fixed codes. -/
def fixed : CodePair := ⟨fixedLengthBits, fixedDistanceBits⟩

/-- The best codes for tokens. -/
def ofTokens (tokens : List Token) : CodePair where
  lengths := withoutZeros (optimalLengths 15
    (tally 286 (endSymbol :: tokens.map fun t => t.first.symbol)))
  distances := withoutZeros (optimalLengths 15
    (tally 30 (tokens.filterMap fun t => t.second?.map Coded.symbol)))

end CodePair

/-- The words of two codes. -/
structure WordPair where
  lengths : Words
  distances : Words

namespace WordPair

/-- The words of codes. -/
def ofCodes (c : CodePair) : WordPair := ⟨.ofLengths c.lengths, .ofLengths c.distances⟩

/-- How many bits a token takes. -/
def tokenSize (p : WordPair) (t : Token) : Nat :=
  p.lengths.size t.first + (t.second?.map p.distances.size).getD 0

/-- How many bits the tokens of a block and its end take. -/
def size (p : WordPair) (tokens : List Token) : Nat :=
  tokens.foldl (fun n t => n + p.tokenSize t) (p.lengths.get endSymbol).length

/-- Writes a token. -/
def writeToken (p : WordPair) (w : BitWriter) (t : Token) : BitWriter :=
  let w := p.lengths.write t.first w
  match t.second? with
  | none => w
  | some c => p.distances.write c w

/-- Writes tokens and the end of the block. -/
def write (p : WordPair) (tokens : List Token) (w : BitWriter) : BitWriter :=
  p.lengths.write ⟨endSymbol, 0, 0⟩ (tokens.foldl p.writeToken w)

end WordPair

/-- What tells a reader the codes of a block. -/
structure Preamble where
  codes : CodePair
  /-- The lengths of the two codes in the symbols of a third one. -/
  coded : List Coded
  /-- The lengths of the third code. -/
  small : List Nat
  /-- How many of these are written, in an order that has the rarer ones last. -/
  smallCount : Nat

namespace Preamble

/-- What tells a reader the given codes. -/
def ofCodes (codes : CodePair) : Preamble :=
  let coded := codedLengths codes.lengths ++ codedLengths codes.distances
  let small := optimalLengths 7 (tally 19 (coded.map Coded.symbol))
  let ordered := lengthOrder.map fun symbol => small.getD symbol 0
  ⟨codes, coded, small, max 4 (withoutZeros ordered).length⟩

/-- How many bits it takes. -/
def size (p : Preamble) : Nat :=
  let words := Words.ofLengths p.small
  p.coded.foldr (fun c n => words.size c + n) (14 + 3 * p.smallCount)

/-- Writes it. -/
def write (p : Preamble) (w : BitWriter) : BitWriter :=
  let words := Words.ofLengths p.small
  let w := w.bits 5 (p.codes.lengths.length - 257)
  let w := w.bits 5 (p.codes.distances.length - 1)
  let w := w.bits 4 (p.smallCount - 4)
  let w := (lengthOrder.take p.smallCount).foldl
    (fun w symbol => w.bits 3 (p.small.getD symbol 0)) w
  p.coded.foldl (fun w c => words.write c w) w

end Preamble

/-- How many bytes bits take after the three bits at the beginning of a block. -/
def bytesOfBits (bits : Nat) : Nat := (bits + 3 + 7) / 8

/-- Writes a block in the shortest way. -/
def Block.write (last : Bool) (b : Block) (w : BitWriter) : BitWriter :=
  let fixed := WordPair.ofCodes .fixed
  let codes := CodePair.ofTokens b.tokens
  let own := WordPair.ofCodes codes
  let preamble := Preamble.ofCodes codes
  let fixedSize := bytesOfBits (fixed.size b.tokens)
  let ownSize := bytesOfBits (preamble.size + own.size b.tokens)
  let w := w.bits 1 (if last then 1 else 0)
  if b.bytes.length + 4 ≤ min fixedSize ownSize then (w.bits 2 0).bytes (storedPart b.bytes)
  else if fixedSize ≤ ownSize then fixed.write b.tokens (w.bits 2 1)
  else own.write b.tokens (preamble.write (w.bits 2 2))

/-- Writes blocks, of which the last one ends the stream. -/
def writeBlocks : List Block → BitWriter → BitWriter
  | [], w => w
  | [b], w => b.write true w
  | b :: blocks, w => writeBlocks blocks (b.write false w)

end Jarsmith.Deflate

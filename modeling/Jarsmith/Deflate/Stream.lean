import Jarsmith.Deflate.Block

/-!
# Writing streams

Bytes are stored at level 0. At every other level they are described by tokens, and these are written
in blocks.
-/

namespace Jarsmith.Deflate

/-- A stream of blocks, made with the given effort. -/
def pack (e : Effort) (bytes : Bytes) : Bytes :=
  let description := describe e bytes.toArray
  (writeBlocks (blocksOf description.last? description.tokens.toList bytes) .empty).toBytes

/-- A stream of the given bytes. -/
def deflate (level : Level) (bytes : Bytes) : Bytes :=
  match level.effort? with
  | none => store bytes
  | some e => pack e bytes

end Jarsmith.Deflate

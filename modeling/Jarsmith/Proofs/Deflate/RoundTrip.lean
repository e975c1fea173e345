import Jarsmith.Deflate.Stream
import Jarsmith.Proofs.Deflate.Block
import Jarsmith.Proofs.Deflate.Description

/-!
# Streams are read back

The tokens of bytes describe them (`describe_spec`), so that the blocks of the tokens give them
(`follow_blocksOf`), and a stream of blocks is read back in whatever ways these are written
(`inflate_writeBlocks`). So what was packed with any effort is read back (`inflate_pack`), and since
this holds of what was stored as well, **`inflate_deflate`**: nothing is lost at any level.
-/

namespace Jarsmith.Deflate

/-- What was packed is read back, whatever the effort. -/
theorem inflate_pack (e : Effort) (bytes : Bytes) :
    inflate (pack e bytes) = some ⟨bytes, true⟩ := by
  have hdescribes : Describes (describe e bytes.toArray).all #[] (#[] ++ bytes.toArray) := by
    rw [Array.empty_append]
    exact describe_spec e bytes.toArray
  have hfollow := follow_blocksOf hdescribes
  rw [Array.empty_append] at hfollow
  exact inflate_writeBlocks hfollow (blocksOf_ne_nil _ _ _)

/-- **No loss**: a stream of any level gives its bytes back, up to the end of its last block. -/
theorem inflate_deflate (level : Level) (bytes : Bytes) :
    inflate (deflate level bytes) = some ⟨bytes, true⟩ := by
  rw [deflate]
  split
  · exact inflate_store bytes
  · exact inflate_pack _ bytes

end Jarsmith.Deflate

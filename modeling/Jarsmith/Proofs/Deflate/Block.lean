import Jarsmith.Proofs.Deflate.CodePair
import Jarsmith.Proofs.Deflate.Stored

/-!
# Blocks are read back

Each of the three ways to write a block is read back: its bytes, which begin at the next whole byte
(`block_stored`), its tokens in the fixed codes (`block_fixed`), and its tokens in codes that are
told before them (`block_told`). So whatever way is the shortest, a block gives its bytes
(`Block.Fits.exists_bits`). A block is stored only if this is shorter than the fixed codes, so that
the number of its tokens bounds its bytes, and its length can be told.

Tokens cut into blocks go on describing the bytes that follow (`follows_blocksOf`), so that
**`inflate_writeBlocks`**: a stream of blocks gives what they stand for, one after another.
-/

namespace Jarsmith.Deflate

variable {tokens : List Token} {output after : Array UInt8} {w : BitWriter} {c : CodePair}

/-! ### Three ways to write a block -/

theorem WordPair.length_le_bits (hcovers : c.Covers tokens) :
    tokens.length ≤ ((ofCodes c).bits tokens).length := by
  have hpos : ∀ t ∈ tokens, 0 < ((ofCodes c).tokenBits t).length := by
    intro t ht
    have hword : 0 < ((Words.ofLengths c.lengths).bits t.first).length :=
      Words.length_bits_pos (hcovers.first t ht)
    rw [tokenBits, List.length_append]
    exact Nat.add_pos_left hword _
  rw [bits, List.length_append]
  exact Nat.le_trans (length_le_flatMap hpos) (Nat.le_add_right _ _)

/-- The symbols of a block with all its bits to go. -/
theorem symbols_block (hcovers : c.Covers tokens) (h : Describes tokens output after)
    (rest : List Bool) :
    symbols (.ofLengths c.lengths) (.ofLengths c.distances)
        ((BitReader.ofBits ((WordPair.ofCodes c).bits tokens ++ rest)).size + 1)
        (.ofBits ((WordPair.ofCodes c).bits tokens ++ rest)) output =
      .next (.ofBits rest) after := by
  refine WordPair.symbols_bits hcovers h ?_ rest
  have hle := WordPair.length_le_bits hcovers
  rw [BitReader.size_ofBits, List.length_append]
  omega

theorem block_fixed (h : Describes tokens output after) (rest : List Bool) :
    block (.ofBits (bitsOf 2 1 ++ ((WordPair.ofCodes .fixed).bits tokens ++ rest))) output =
      .next (.ofBits rest) after := by
  rw [block, BitReader.bits?_bitsOf (by decide)]
  dsimp only
  rw [if_neg (by decide), if_pos rfl]
  exact symbols_block (covers_fixed h) h rest

theorem block_told (hcovers : c.Covers tokens) (htold : c.IsTold)
    (h : Describes tokens output after) (rest : List Bool) :
    block (.ofBits (bitsOf 2 2 ++ ((Preamble.ofCodes c).bits ++
        ((WordPair.ofCodes c).bits tokens ++ rest)))) output = .next (.ofBits rest) after := by
  have hcodes := Preamble.blockCodes_preamble htold ((WordPair.ofCodes c).bits tokens ++ rest)
  rw [block, BitReader.bits?_bitsOf (by decide)]
  dsimp only
  rw [if_neg (by decide), if_neg (by decide), if_pos rfl, hcodes]
  exact symbols_block hcovers h rest

theorem block_stored {part : Bytes} {padding : List Bool} (hpart : part.length ≤ blockSize)
    (hpadding : padding.length < 8) (rest : Bytes) :
    block (.ofBits (bitsOf 2 0 ++ (padding ++ bytesBits (storedPart part) ++ bytesBits rest)))
        output = .next (.ofBits (bytesBits rest)) (output ++ part.toArray) := by
  rw [block, BitReader.bits?_bitsOf (by decide), ← BitReader.ofBytes_eq rest]
  refine stored_storedPart hpart ?_
  rw [List.append_assoc, ← bytesBits_append, BitReader.rest_ofBits hpadding]

/-! ### Blocks -/

/-- The tokens of a block describe its bytes where it stands, and are not too many. -/
structure Block.Fits (b : Block) (output : Array UInt8) : Prop where
  describes : Describes b.tokens output (output ++ b.bytes.toArray)
  length_le : b.tokens.length ≤ blockTokens

namespace Block.Fits

variable {b : Block}

/-- A block that is stored since that is not longer than the fixed codes has a length that can be
told. -/
theorem length_le_blockSize (h : b.Fits output)
    (hshort : b.bytes.length + 4 ≤ bytesOfBits ((WordPair.ofCodes .fixed).size b.tokens)) :
    b.bytes.length ≤ blockSize := by
  have hsize := size_fixed_le h.describes
  have hcount : b.tokens.length ≤ 16383 := h.length_le
  show _ ≤ 65535
  rw [bytesOfBits] at hshort
  omega

/-- A block is read back, if what follows it ends with a whole byte. -/
theorem exists_bits (h : b.Fits output) (hw : w.Settled) (last : Bool) :
    ∃ bs, w.Adds (b.write last w) (bitsOf 1 last.toNat ++ bs) ∧
      ∀ rest, ((b.write last w).toBits ++ rest).length % 8 = 0 →
        block (.ofBits (bs ++ rest)) output =
          .next (.ofBits rest) (output ++ b.bytes.toArray) := by
  have hbit : w.Adds (w.bits 1 (if last then 1 else 0)) (bitsOf 1 last.toNat) := by
    cases last <;> exact BitWriter.adds_bits hw (by decide)
  have hkind : ∀ kind < 4, (w.bits 1 (if last then 1 else 0)).Adds
      ((w.bits 1 (if last then 1 else 0)).bits 2 kind) (bitsOf 2 kind) :=
    fun kind hlt => BitWriter.adds_bits hbit.settled hlt
  rw [write]
  split
  · next hstored =>
    -- what follows begins with a whole byte
    have hpart := h.length_le_blockSize (Nat.le_trans hstored (Nat.min_le_left _ _))
    have hzero := hkind 0 (by decide)
    have hbytes := BitWriter.adds_bytes hzero.settled (storedPart b.bytes)
    refine ⟨_, hbit.trans (hzero.trans hbytes), fun rest hrest => ?_⟩
    obtain ⟨bytes, rfl⟩ : ∃ bytes, rest = bytesBits bytes := by
      refine exists_bytesBits ?_
      have hcount := BitWriter.count_bytes hzero.settled (storedPart b.bytes)
      rw [BitWriter.count_eq hbytes.settled] at hcount
      rw [List.length_append] at hrest
      omega
    rw [List.append_assoc]
    exact block_stored hpart (by
      rw [List.length_replicate]
      exact BitWriter.padding_lt _) bytes
  · split
    · have hone := hkind 1 (by decide)
      have hwrite := WordPair.adds_write hone.settled (covers_fixed h.describes) h.describes
      refine ⟨_, hbit.trans (hone.trans hwrite), fun rest _ => ?_⟩
      rw [List.append_assoc]
      exact block_fixed h.describes rest
    · have hcovers := covers_ofTokens h.describes
      have htold := isTold_ofTokens b.tokens
      have htwo := hkind 2 (by decide)
      have hpreamble := Preamble.adds_write htwo.settled htold
      have hwrite := WordPair.adds_write hpreamble.settled hcovers h.describes
      refine ⟨_, hbit.trans (htwo.trans (hpreamble.trans hwrite)), fun rest _ => ?_⟩
      rw [List.append_assoc, List.append_assoc]
      exact block_told hcovers htold h.describes rest

end Block.Fits

/-! ### Cutting tokens into blocks -/

/-- Blocks give bytes one after another. -/
inductive Follow : List Block → (output after : Array UInt8) → Prop where
  | nil {output : Array UInt8} : Follow [] output output
  | cons {b : Block} {parts : List Block} {output after : Array UInt8} (hb : b.Fits output)
      (h : Follow parts (output ++ b.bytes.toArray) after) : Follow (b :: parts) output after

theorem blocksOf_ne_nil (last? : Option UInt8) (tokens : List Token) (bytes : Bytes) :
    blocksOf last? tokens bytes ≠ [] := by
  rw [blocksOf]
  split <;> exact List.cons_ne_nil _ _

/-- The blocks of a description give the bytes that it describes. -/
theorem follow_blocksOf {last? : Option UInt8} {bytes : Bytes}
    (h : Describes (tokens ++ last?.toList.map Token.literal) output (output ++ bytes.toArray)) :
    Follow (blocksOf last? tokens bytes) output (output ++ bytes.toArray) := by
  -- the recursion of the cutting is on the number of tokens
  induction hn : tokens.length using Nat.strongRecOn generalizing tokens bytes output with
  | _ n ih =>
    rw [blocksOf]
    split
    · next hlong =>
      rw [← List.take_append_drop blockTokens tokens, List.append_assoc] at h
      obtain ⟨between, htaken, hrest⟩ := h.of_append
      obtain ⟨added, rfl, hadded⟩ := htaken.exists_added
      obtain ⟨more, hmore, -⟩ := hrest.exists_added
      have hbytes : bytes = added ++ more := by simpa using congrArg Array.toList hmore
      dsimp only
      rw [← hadded, hbytes, List.take_left, List.drop_left, ← hbytes, hmore]
      rw [hmore] at hrest
      have hfewer : (tokens.drop blockTokens).length < n := by
        have hpos : 0 < blockTokens := by decide
        rw [List.length_drop]
        omega
      exact .cons ⟨htaken, List.length_take_le _ _⟩ (ih _ hfewer hrest rfl)
    · next hshort =>
      have hlast : last?.toList.length ≤ 1 := Option.length_toList_le
      refine .cons ⟨h, ?_⟩ .nil
      rw [List.length_append, List.length_map]
      omega

/-! ### Streams of blocks -/

/-- After a block that is read, the stream is over or goes on behind it. -/
theorem blocks_ofBits {bs : List Bool} {r : BitReader} (fuel : Nat) (last : Bool)
    (h : block (.ofBits bs) output = .next r after) :
    blocks (fuel + 1) (.ofBits (bitsOf 1 last.toNat ++ bs)) output =
      if last then some ⟨after.toList, true⟩ else blocks fuel r after := by
  have hbit : (BitReader.ofBits (bitsOf 1 last.toNat ++ bs)).bit? =
      some (last.toNat, .ofBits bs) := by
    cases last <;> exact BitReader.bit?_ofBits _ bs
  rw [blocks, hbit]
  dsimp only
  rw [h]
  cases last <;> rfl

/-- Blocks are read back up to the last one, if what follows it fills a byte. -/
theorem exists_bits_writeBlocks {parts : List Block} (h : Follow parts output after)
    (hparts : parts ≠ []) (hw : w.Settled) :
    ∃ bs, w.Adds (writeBlocks parts w) bs ∧
      ∀ rest fuel, ((writeBlocks parts w).toBits ++ rest).length % 8 = 0 → bs.length < fuel →
        blocks fuel (.ofBits (bs ++ rest)) output = some ⟨after.toList, true⟩ := by
  induction h generalizing w with
  | nil => exact absurd rfl hparts
  | @cons b parts output after hb h ih =>
    cases parts with
    | nil =>
      cases h
      obtain ⟨bs, hadds, hread⟩ := hb.exists_bits hw true
      refine ⟨_, hadds, fun rest fuel hrest hfuel => ?_⟩
      obtain ⟨fuel, rfl⟩ := Nat.exists_eq_succ_of_ne_zero (Nat.ne_of_gt (Nat.zero_lt_of_lt hfuel))
      rw [List.append_assoc]
      exact blocks_ofBits fuel true (hread rest hrest)
    | cons next parts =>
      obtain ⟨bs, hadds, hread⟩ := hb.exists_bits hw false
      obtain ⟨more, hmore, hrun⟩ := ih (List.cons_ne_nil _ _) hadds.settled
      refine ⟨_, hadds.trans hmore, fun rest fuel hrest hfuel => ?_⟩
      obtain ⟨fuel, rfl⟩ := Nat.exists_eq_succ_of_ne_zero (Nat.ne_of_gt (Nat.zero_lt_of_lt hfuel))
      -- what follows this block are the other blocks and what follows them
      have halign : ((b.write false w).toBits ++ (more ++ rest)).length % 8 = 0 := by
        rwa [← List.append_assoc, ← hmore.toBits]
      have hless : more.length < fuel := by
        rw [List.length_append, List.length_append, length_bitsOf] at hfuel
        omega
      rw [List.append_assoc, List.append_assoc]
      exact (blocks_ofBits fuel false (hread _ halign)).trans (hrun rest fuel hrest hless)

/-- **A stream of blocks** is read back. -/
theorem inflate_writeBlocks {parts : List Block} {bytes : Bytes}
    (h : Follow parts #[] bytes.toArray) (hparts : parts ≠ []) :
    inflate (writeBlocks parts .empty).toBytes = some ⟨bytes, true⟩ := by
  obtain ⟨bs, hadds, hread⟩ := exists_bits_writeBlocks h hparts BitWriter.settled_empty
  have hfilled := BitWriter.length_padding hadds.settled
  have hbits : (writeBlocks parts .empty).toBits = bs := hadds.toBits
  rw [inflate, BitWriter.ofBytes_toBytes hadds.settled, hbits]
  refine hread _ _ hfilled ?_
  rw [BitReader.size_ofBits, List.length_append]
  omega

end Jarsmith.Deflate

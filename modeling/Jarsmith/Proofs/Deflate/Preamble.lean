import Jarsmith.Proofs.Deflate.CodeLengths
import Jarsmith.Proofs.Deflate.Optimal

/-!
# The codes of a block are read back

A preamble tells the numbers of lengths, the lengths of the code for code lengths in an order that
has the rarer ones last, and the lengths of both codes in that code. Lengths that are not written
are zero, so that the code for code lengths is known (`small_eq`), and with it the symbols for the
lengths are read (`codeLengths_spells`). So **`blockCodes_preamble`**: the codes that were made are
read back, if they are complete and the end of the block has a word.
-/

namespace Jarsmith.Deflate

/-! ### How often symbols occur -/

theorem length_tally (count : Nat) (symbols : List Nat) : (tally count symbols).length = count := by
  rw [tally, Array.length_toList, size_foldl_modify (fun s : Nat => s), Array.size_replicate]

theorem getElem?_tally {count s : Nat} (symbols : List Nat) (h : s < count) :
    (tally count symbols)[s]? = some (symbols.count s) := by
  have hsize : s < (Array.replicate count 0).size := by rwa [Array.size_replicate]
  have hfold := getD_foldl_modify (fun s : Nat => s) symbols hsize
  have hlength := length_tally count symbols
  have hreplicate : (Array.replicate count 0).getD s 0 = 0 := by
    rw [Array.getD_eq_getD_getElem?, Array.getElem?_replicate, if_pos h]
    rfl
  rw [hreplicate, Nat.zero_add, List.map_id', Array.getD_eq_getD_getElem?, ← Array.getElem?_toList]
    at hfold
  rw [tally] at hlength ⊢
  rw [List.getElem?_eq_getElem (by rwa [hlength])] at hfold ⊢
  exact congrArg some hfold

/-- The best lengths for symbols make a complete code in which each of them has a word. -/
theorem optimalLengths_tally {limit count : Nat} (symbols : List Nat) (hlimit : 0 < limit)
    (hcount : 3 ≤ count) (hroom : count ≤ Nat.pow 2 limit) :
    (optimalLengths limit (tally count symbols)).length = count ∧
      IsComplete limit (optimalLengths limit (tally count symbols)) ∧
      ∀ s ∈ symbols, s < count → HasWord (optimalLengths limit (tally count symbols)) s := by
  have hlength := length_tally count symbols
  obtain ⟨hsize, hcomplete, hwords⟩ := optimalLengths_spec hlimit
    (show 3 ≤ (tally count symbols).length by rwa [hlength])
    (show (tally count symbols).length ≤ Nat.pow 2 limit by rwa [hlength])
  refine ⟨hsize.trans hlength, hcomplete, fun s hs hlt => ?_⟩
  exact hwords s _ (getElem?_tally symbols hlt) (Nat.ne_of_gt (List.count_pos_iff.2 hs))

/-! ### Codes that can be told -/

/-- Two codes are complete, the end of the block has a word, and the numbers of their lengths fit
their fields. -/
structure CodePair.IsTold (c : CodePair) : Prop where
  lengths : IsComplete 15 c.lengths
  distances : IsComplete 15 c.distances
  ending : HasWord c.lengths endSymbol
  lengthCount : c.lengths.length ≤ 286
  distanceCount : c.distances.length ≤ 30

namespace CodePair.IsTold

variable {c : CodePair}

theorem lt_length (h : c.IsTold) : 256 < c.lengths.length := by
  obtain ⟨n, hn⟩ := h.ending
  exact (List.getElem?_eq_some_iff.1 hn).1

theorem pos_length (h : c.IsTold) : 0 < c.distances.length := by
  refine List.length_pos_iff.2 fun hnil => ?_
  have hshares := h.distances.shares
  rw [hnil] at hshares
  exact absurd hshares (by decide)

end CodePair.IsTold

/-! ### Preambles -/

namespace Preamble

variable {codes : CodePair}

theorem small_spec (codes : CodePair) :
    (ofCodes codes).small.length = 19 ∧ IsComplete 7 (ofCodes codes).small ∧
      ∀ c ∈ (ofCodes codes).coded, c.symbol < 19 → HasWord (ofCodes codes).small c.symbol := by
  obtain ⟨hlength, hcomplete, hwords⟩ :=
    optimalLengths_tally ((ofCodes codes).coded.map Coded.symbol) (show 0 < 7 by decide)
      (show 3 ≤ 19 by decide) (show 19 ≤ Nat.pow 2 7 by decide)
  exact ⟨hlength, hcomplete, fun c hc hlt => hwords c.symbol (List.mem_map_of_mem hc) hlt⟩

/-- The lengths of both codes are spelled. -/
theorem spells_coded (h : codes.IsTold) :
    Spells (ofCodes codes).coded [] (codes.lengths ++ codes.distances).reverse := by
  have hlengths := spells_codedLengths
    (fun l hl => Nat.lt_succ_of_le (h.lengths.le l hl)) []
  have hdistances := spells_codedLengths
    (fun l hl => Nat.lt_succ_of_le (h.distances.le l hl)) (codes.lengths.reverse ++ [])
  have hboth := hlengths.append hdistances
  rwa [List.append_nil, ← List.reverse_append] at hboth

theorem smallCount_le (codes : CodePair) : (ofCodes codes).smallCount ≤ 19 := by
  refine Nat.max_le.2 ⟨by decide, ?_⟩
  exact Nat.le_trans (length_withoutZeros_le _) (Nat.le_of_eq (List.length_map _))

/-- A length that is not written is zero. -/
theorem getD_small {s : Nat} (hs : s < 19)
    (h : s ∉ lengthOrder.take (ofCodes codes).smallCount) :
    (ofCodes codes).small.getD s 0 = 0 := by
  have hall : ∀ s, s < 19 → s ∈ lengthOrder := by decide
  obtain ⟨place, hplace⟩ := List.getElem?_of_mem (hall s hs)
  -- its place is beyond those that are written, where only zeros were left out
  have hbeyond : (ofCodes codes).smallCount ≤ place := by
    by_contra hlt
    refine h (List.mem_of_getElem? (i := place) ?_)
    rw [List.getElem?_take, if_pos (Nat.lt_of_not_le hlt), hplace]
  have hzero := getD_withoutZeros
    (lengthOrder.map fun symbol => (ofCodes codes).small.getD symbol 0) place
  have hcount : (withoutZeros (lengthOrder.map fun symbol =>
      (ofCodes codes).small.getD symbol 0)).length ≤ place :=
    Nat.le_trans (Nat.le_max_right 4 _) hbeyond
  rw [List.getD_eq_default _ _ hcount, List.getD_eq_getElem?_getD, List.getElem?_map, hplace]
    at hzero
  exact hzero.symm

/-- The bits of a preamble. -/
def bits (p : Preamble) : List Bool :=
  bitsOf 5 (p.codes.lengths.length - 257) ++ bitsOf 5 (p.codes.distances.length - 1) ++
    bitsOf 4 (p.smallCount - 4) ++
    (lengthOrder.take p.smallCount).flatMap (fun s => bitsOf 3 (p.small.getD s 0)) ++
    p.coded.flatMap (Words.ofLengths p.small).bits

theorem small_lt (codes : CodePair) (s : Nat) : (ofCodes codes).small.getD s 0 < Nat.pow 2 3 := by
  obtain ⟨-, hcomplete, -⟩ := small_spec codes
  rw [List.getD_eq_getElem?_getD]
  cases hs : (ofCodes codes).small[s]? with
  | none => decide
  | some l => exact Nat.lt_succ_of_le (hcomplete.le l (List.mem_of_getElem? hs))

/-- Writing a preamble adds its bits. -/
theorem adds_write {w : BitWriter} (hw : w.Settled) (h : codes.IsTold) :
    w.Adds ((ofCodes codes).write w) (ofCodes codes).bits := by
  have hlt := h.lt_length
  have hpos := h.pos_length
  have hlengthCount := h.lengthCount
  have hdistanceCount := h.distanceCount
  have hsmallCount := smallCount_le codes
  have hspells := spells_coded h
  obtain ⟨-, -, hwords⟩ := small_spec codes
  have h₁ := BitWriter.adds_bits hw (show codes.lengths.length - 257 < Nat.pow 2 5 by
    show _ < 32
    omega)
  have h₂ := BitWriter.adds_bits h₁.settled (show codes.distances.length - 1 < Nat.pow 2 5 by
    show _ < 32
    omega)
  have h₃ := BitWriter.adds_bits h₂.settled (show (ofCodes codes).smallCount - 4 < Nat.pow 2 4 by
    show _ < 16
    omega)
  have h₄ := BitWriter.Adds.foldl (f := fun w s => w.bits 3 ((ofCodes codes).small.getD s 0))
    (g := fun s => bitsOf 3 ((ofCodes codes).small.getD s 0))
    (lengthOrder.take (ofCodes codes).smallCount) h₃.settled
    fun s _ v hv => BitWriter.adds_bits hv (small_lt codes s)
  have h₅ := BitWriter.Adds.foldl
    (f := fun w c => (Words.ofLengths (ofCodes codes).small).write c w)
    (g := (Words.ofLengths (ofCodes codes).small).bits) (ofCodes codes).coded h₄.settled
    fun c hc v hv => Words.adds_write hv (hwords c hc (hspells.fits c hc).1) (hspells.fits c hc).2
  exact (((h₁.trans h₂).trans h₃).trans h₄).trans h₅

/-! ### Reading -/

theorem smallLengths_flatMap {value : Nat → Nat} (hvalue : ∀ s, value s < Nat.pow 2 3)
    (order : List Nat) (rest : List Bool) (found : List (Nat × Nat)) :
    smallLengths order (.ofBits (order.flatMap (fun s => bitsOf 3 (value s)) ++ rest)) found =
      .read ((order.map fun s => (s, value s)).reverse ++ found) (.ofBits rest) := by
  induction order generalizing found with
  | nil => rfl
  | cons s order ih =>
    rw [List.flatMap_cons, List.append_assoc, smallLengths, BitReader.bits?_bitsOf (hvalue s)]
    dsimp only
    rw [ih, List.map_cons, List.reverse_cons, List.append_assoc, List.singleton_append]

theorem lookup_map (value : Nat → Nat) (s : Nat) (keys : List Nat) :
    (keys.map fun s => (s, value s)).lookup s = if s ∈ keys then some (value s) else none := by
  induction keys with
  | nil => rfl
  | cons k keys ih =>
    rw [List.map_cons, List.lookup_cons, ih]
    by_cases hk : s = k
    · rw [hk, beq_self_eq_true, if_pos List.mem_cons_self]
    · rw [beq_false_of_ne hk]
      simp [hk]

/-- The lengths that are read are those of the code for code lengths. -/
theorem small_eq (codes : CodePair) :
    ((List.range 19).map fun s => ((((lengthOrder.take (ofCodes codes).smallCount).map fun s =>
      (s, (ofCodes codes).small.getD s 0)).reverse ++ []).lookup s).getD 0) =
        (ofCodes codes).small := by
  obtain ⟨hlength, -, -⟩ := small_spec codes
  have hall : ∀ s ∈ List.range 19, ((((lengthOrder.take (ofCodes codes).smallCount).map fun s =>
      (s, (ofCodes codes).small.getD s 0)).reverse ++ []).lookup s).getD 0 =
        (ofCodes codes).small.getD s 0 := by
    intro s hs
    rw [List.append_nil, ← List.map_reverse, lookup_map fun s => (ofCodes codes).small.getD s 0]
    split
    · rfl
    · next hmem =>
      exact (getD_small (List.mem_range.1 hs) (mt List.mem_reverse.2 hmem)).symm
  rw [List.map_congr_left hall, ← hlength]
  refine List.ext_getElem (by simp) fun i h₁ h₂ => ?_
  rw [List.getElem_map, List.getElem_range, List.getD_eq_getElem _ _ h₂]

/-- The three numbers at the beginning are read as one. -/
theorem exists_sizes (h : codes.IsTold) (rest : List Bool) :
    ∃ sizes, BitReader.bits? 14 (.ofBits ((ofCodes codes).bits ++ rest)) = some (sizes, .ofBits
        ((lengthOrder.take (ofCodes codes).smallCount).flatMap
          (fun s => bitsOf 3 ((ofCodes codes).small.getD s 0)) ++
            ((ofCodes codes).coded.flatMap (Words.ofLengths (ofCodes codes).small).bits ++ rest))) ∧
      sizes % 32 + 257 = codes.lengths.length ∧ sizes / 32 % 32 + 1 = codes.distances.length ∧
      sizes / 1024 + 4 = (ofCodes codes).smallCount := by
  have hlt := h.lt_length
  have hpos := h.pos_length
  have hlengthCount := h.lengthCount
  have hdistanceCount := h.distanceCount
  have hleast : 4 ≤ (ofCodes codes).smallCount := Nat.le_max_left _ _
  have hmost := smallCount_le codes
  have hfirst : codes.lengths.length - 257 < Nat.pow 2 5 := show _ < 32 by omega
  have hsecond : codes.distances.length - 1 < Nat.pow 2 5 := show _ < 32 by omega
  have hone : bitsOf 14 (codes.lengths.length - 257 +
      (codes.distances.length - 1 + ((ofCodes codes).smallCount - 4) * Nat.pow 2 5) *
        Nat.pow 2 5) = bitsOf 5 (codes.lengths.length - 257) ++
          (bitsOf 5 (codes.distances.length - 1) ++
            bitsOf 4 ((ofCodes codes).smallCount - 4)) := by
    rw [← bitsOf_add 5 4 _ hsecond, ← bitsOf_add 5 9 _ hfirst]
  refine ⟨codes.lengths.length - 257 + (codes.distances.length - 1 +
    ((ofCodes codes).smallCount - 4) * 32) * 32, ?_, by omega, by omega, by omega⟩
  have hfits : codes.lengths.length - 257 + (codes.distances.length - 1 +
      ((ofCodes codes).smallCount - 4) * 32) * 32 < Nat.pow 2 14 := show _ < 16384 by omega
  have hread := BitReader.bits?_bitsOf hfits
    ((lengthOrder.take (ofCodes codes).smallCount).flatMap
      (fun s => bitsOf 3 ((ofCodes codes).small.getD s 0)) ++
      ((ofCodes codes).coded.flatMap (Words.ofLengths (ofCodes codes).small).bits ++ rest))
  have hcodes : (ofCodes codes).codes = codes := rfl
  rw [← hread, bits, hcodes]
  refine congrArg (fun bs => BitReader.bits? 14 (.ofBits bs)) ?_
  refine Eq.trans ?_ (congrArg (· ++ _) hone.symm)
  simp only [List.append_assoc]

/-- **The codes of a block** are read back. -/
theorem blockCodes_preamble (h : codes.IsTold) (rest : List Bool) :
    blockCodes (.ofBits ((ofCodes codes).bits ++ rest)) =
      .read (.ofLengths codes.lengths, .ofLengths codes.distances) (.ofBits rest) := by
  have hlt := h.lt_length
  have hlengthCount := h.lengthCount
  have hdistanceCount := h.distanceCount
  have hspells := spells_coded h
  obtain ⟨-, hcomplete, hwords⟩ := small_spec codes
  have hword : ∀ c ∈ (ofCodes codes).coded, HasWord (ofCodes codes).small c.symbol :=
    fun c hc => hwords c hc (hspells.fits c hc).1
  obtain ⟨sizes, hsizes, hlengths, hdistances, hsmall⟩ := exists_sizes h rest
  -- each symbol takes a bit at least, so the number of bits is fuel enough
  have hfuel : (ofCodes codes).coded.length < (BitReader.ofBits ((ofCodes codes).coded.flatMap
      (Words.ofLengths (ofCodes codes).small).bits ++ rest)).size + 1 := by
    have hlength := length_le_flatMap (f := (Words.ofLengths (ofCodes codes).small).bits)
      fun c hc => Words.length_bits_pos (hword c hc)
    rw [BitReader.size_ofBits, List.length_append]
    omega
  have hread := codeLengths_spells hspells hcomplete.isCode hword hfuel rest
  rw [List.length_reverse, List.length_append, List.reverse_reverse] at hread
  obtain ⟨n, hn⟩ := h.ending
  rw [blockCodes, hsizes]
  dsimp only
  rw [hlengths, hdistances, hsmall, if_neg (by omega), smallLengths_flatMap (small_lt codes)]
  dsimp only
  rw [small_eq, isUsable_of_isComplete hcomplete, hread]
  dsimp only
  rw [List.take_left, List.drop_left, isUsable_of_isComplete h.lengths,
    isUsable_of_isComplete h.distances, List.getElem?_append_left hlt, hn]
  simp

end Preamble

end Jarsmith.Deflate

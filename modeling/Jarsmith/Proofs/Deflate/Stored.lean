import Jarsmith.Deflate.Inflate
import Jarsmith.Deflate.Stored
import Jarsmith.Proofs.Bytes.Field

/-!
# Stored blocks are read back

A stored block gives its bytes (`blocks_storedBlock`), and so **`inflate_store`**: a stream of
stored blocks gives those that were stored.
-/

namespace Jarsmith.Deflate

variable {part rest bytes : Bytes} {output : Array UInt8}

/-- A stored block whose length fits is read up to its end. -/
theorem stored_storedPart {r : BitReader} (hpart : part.length ≤ blockSize)
    (hr : r.rest = storedPart part ++ rest) :
    stored r output = .next (.ofBytes rest) (output ++ part.toArray) := by
  have hlength : Bytes.little (Bytes.ofLittle 2 part.length) = part.length :=
    Bytes.little_ofLittle (Nat.lt_succ_of_le hpart)
  have hinverted : Bytes.little (Bytes.ofLittle 2 (0xFFFF - part.length)) =
      0xFFFF - part.length := Bytes.little_ofLittle (Nat.lt_succ_of_le (Nat.sub_le _ _))
  obtain ⟨a, b, hab⟩ : ∃ a b, Bytes.ofLittle 2 part.length = [a, b] := ⟨_, _, rfl⟩
  obtain ⟨c, d, hcd⟩ : ∃ c d, Bytes.ofLittle 2 (0xFFFF - part.length) = [c, d] := ⟨_, _, rfl⟩
  have hbytes : r.toBytes = a :: b :: c :: d :: (part ++ rest) := by
    rw [BitReader.toBytes, hr, storedPart, hab, hcd]
    simp
  rw [hab] at hlength
  rw [hcd] at hinverted
  have hsum : 0xFFFF - part.length + part.length = 0xFFFF := Nat.sub_add_cancel hpart
  unfold stored
  rw [hbytes]
  dsimp only
  rw [hlength, hinverted, if_neg (not_not_intro hsum), List.take_left, if_neg (Nat.lt_irrefl _),
    List.drop_left]

/-- A stored block gives its bytes, and then the stream is over or goes on behind it. -/
theorem blocks_storedBlock (fuel : Nat) (last : Bool) (hpart : part.length ≤ blockSize) :
    blocks (fuel + 1) (.ofBytes (storedBlock last part ++ rest)) output =
      if last then some ⟨(output ++ part.toArray).toList, true⟩
      else blocks fuel (.ofBytes rest) (output ++ part.toArray) := by
  -- the bit that tells whether the block is the last one, and the two of its kind
  have hbit : (BitReader.ofBytes (storedBlock last part ++ rest)).bit? =
      some (if last then 1 else 0, ⟨0, 7, storedPart part ++ rest⟩) := by
    cases last <;> rfl
  have hkind : BitReader.bits? 2 ⟨0, 7, storedPart part ++ rest⟩ =
      some (0, ⟨0, 5, storedPart part ++ rest⟩) := by simp [BitReader.bits?, BitReader.bit?]
  have hblock : block ⟨0, 7, storedPart part ++ rest⟩ output =
      .next (.ofBytes rest) (output ++ part.toArray) := by
    unfold block
    rw [hkind]
    show stored ⟨0, 5, storedPart part ++ rest⟩ output = _
    exact stored_storedPart hpart rfl
  rw [blocks, hbit]
  dsimp only
  rw [hblock]
  cases last <;> rfl

/-- Stored blocks are read one by one. -/
theorem blocks_store (bytes : Bytes) (output : Array UInt8) {fuel : Nat}
    (hfuel : (store bytes).length ≤ fuel) :
    blocks fuel (.ofBytes (store bytes)) output = some ⟨output.toList ++ bytes, true⟩ := by
  fun_induction store bytes generalizing output fuel with
  | case1 bytes hlong ih =>
    have hpart : (bytes.take blockSize).length ≤ blockSize := List.length_take_le _ _
    rw [List.length_append, storedBlock, List.length_cons] at hfuel
    obtain ⟨fuel, rfl⟩ := Nat.exists_eq_succ_of_ne_zero (show fuel ≠ 0 by omega)
    have hrest : (store (bytes.drop blockSize)).length ≤ fuel := by omega
    rw [Nat.succ_eq_add_one, blocks_storedBlock fuel false hpart, if_neg Bool.false_ne_true,
      ih _ hrest, Array.toList_append, List.append_assoc, List.take_append_drop]
  | case2 bytes hshort =>
    rw [storedBlock, List.length_cons] at hfuel
    obtain ⟨fuel, rfl⟩ := Nat.exists_eq_succ_of_ne_zero (show fuel ≠ 0 by omega)
    rw [Nat.succ_eq_add_one, ← List.append_nil (storedBlock true bytes),
      blocks_storedBlock fuel true (Nat.le_of_not_lt hshort), if_pos rfl, Array.toList_append]

theorem inflate_store (bytes : Bytes) : inflate (store bytes) = some ⟨bytes, true⟩ := by
  refine blocks_store bytes #[] ?_
  show (store bytes).length ≤ 0 + 8 * (store bytes).length + 1
  omega

end Jarsmith.Deflate

import Jarsmith.Proofs.ClassFile.Lookup
import Jarsmith.Proofs.Text.LongNul

/-!
# Texts of a constant pool, unit by unit

A constant can hold any sequence of 16-bit units whose modified form is no longer than its length
field can say (`Constant.ofUnits`). The text that the pool gives for it has these units as its code
points (`utf8_ofUnits`): a pair of surrogates stays two, a surrogate that stands alone is kept, and
NUL comes back from its two bytes.

On every constant, also one whose bytes are no modified UTF-8, the pool gives what the two passes
over its bytes give (`utf8_eq_passes`).
-/

namespace Jarsmith.ClassFile

variable {units : List UInt16} {pool : ConstantPool} {index : Int} {c : Constant}

/-- The modified form of 16-bit units. -/
def formOfUnits (units : List UInt16) : Bytes := Utf8.encodeUnits (units.map UInt16.toNat)

/-- The constant that holds 16-bit units. -/
def Constant.ofUnits (units : List UInt16) : Constant :=
  ⟨Tag.utf8, Bytes.ofBig 2 (formOfUnits units).length ++ formOfUnits units⟩

theorem toNat_lt_of_mem {u : Nat} (hu : u ∈ units.map UInt16.toNat) : u < 0x10000 := by
  obtain ⟨unit, -, rfl⟩ := List.mem_map.1 hu
  exact unit.toNat_lt

theorem Constant.drop_payload_ofUnits : (ofUnits units).payload.drop 2 = formOfUnits units := by
  have hlength : (Bytes.ofBig 2 (formOfUnits units).length).length = 2 := Bytes.length_ofBig _ _
  exact List.drop_left' hlength

/-- The length field can say how long the form is. -/
theorem Constant.wellFormed_ofUnits (h : (formOfUnits units).length ≤ 0xFFFF) :
    (ofUnits units).WellFormed := by
  have hlt : (formOfUnits units).length < Nat.pow 256 2 := Nat.lt_succ_of_le h
  have hform : Bytes.ofBig? 2 (formOfUnits units).length =
      some (Bytes.ofBig 2 (formOfUnits units).length) :=
    Bytes.ofBig?_eq_some_iff.2 ⟨Bytes.length_ofBig _ _, by rw [Bytes.big_ofBig hlt]⟩
  exact (if_pos rfl).mpr ⟨_, _, hform, rfl⟩

/-- The text of a constant is what is read in two passes over its bytes, if they can be read. -/
theorem utf8_eq_passes (hget : pool.getTagged index Tag.utf8 = .ok c) :
    pool.utf8 index =
      match Utf8.decodeIn .lenient (Utf8.shortenNul (c.payload.drop 2)) with
      | some t => .ok t
      | none => .error (.badUtf8 index) := by
  unfold ConstantPool.utf8
  rw [hget, Utf8.decodeIn_shortenNul]
  show (match Utf8.decodeModified (c.payload.drop 2) with
    | some t => _
    | none => _) = _
  cases Utf8.decodeModified (c.payload.drop 2) <;> rfl

/-- **Texts come back unit by unit.** A constant with any 16-bit units, if their form is not too
long, is read as it is written, wherever it stands. The first pass over its bytes shortens the NULs
and nothing else, the second one reads the units, and so the text is found at its index in every
pool that has the constant there. -/
theorem utf8_ofUnits (units : List UInt16) (hlength : (formOfUnits units).length ≤ 0xFFFF) :
    (∀ (i offset : Nat) (rest : Bytes),
      (Constant.decode i).run ⟨offset, (Constant.ofUnits units).encode ++ rest⟩ =
        .ok (.ofUnits units, ⟨offset + (Constant.ofUnits units).encode.length, rest⟩)) ∧
    Utf8.shortenNul (formOfUnits units) = units.flatMap (fun u => Utf8.encodePoint u.toNat) ∧
    Utf8.decodeIn .lenient (Utf8.shortenNul (formOfUnits units)) =
      some (units.map UInt16.toNat) ∧
    ∀ (pool : ConstantPool) (index : Int), pool.get index = .ok (.ofUnits units) →
      pool.utf8 index = .ok (units.map UInt16.toNat) := by
  have hunits : ∀ u ∈ units.map UInt16.toNat, u < 0x10000 := fun u => toNat_lt_of_mem
  have hpasses : Utf8.decodeIn .lenient (Utf8.shortenNul (formOfUnits units)) =
      some (units.map UInt16.toNat) := by
    rw [Utf8.decodeIn_shortenNul]
    exact Utf8.decodeModified_encodeUnits hunits
  refine ⟨fun i offset rest => ?_, ?_, hpasses, fun pool index hget => ?_⟩
  · exact (Constant.decode_reads i _ _ _).2
      ⟨_, ⟨Constant.wellFormed_ofUnits hlength, rfl⟩, rfl, rfl⟩
  · exact (Utf8.shortenNul_encodeUnits hunits).trans (List.flatMap_map _ _ _)
  · have htagged : pool.getTagged index Tag.utf8 = .ok (.ofUnits units) :=
      (ConstantPool.getTagged_of_get hget Tag.utf8).trans (if_pos rfl)
    rw [utf8_eq_passes htagged, Constant.drop_payload_ofUnits, hpasses]

namespace Sample

/-- NUL, a letter, a pair of surrogates, one that stands alone, and the first units of two and of
three bytes. -/
def surrogates : List UInt16 := [0, 0x41, 0xD83D, 0xDE00, 0xDC00, 0x80, 0x800, 0]

end Sample

/-- A pool with a text in which surrogates stand in a pair and alone, and NULs at both ends. -/
theorem utf8_ofUnits_of_surrogates : ∃ pool : ConstantPool,
    (formOfUnits Sample.surrogates).length ≤ 0xFFFF ∧
      pool.get 1 = .ok (.ofUnits Sample.surrogates) ∧
      pool.utf8 1 = .ok [0, 0x41, 0xD83D, 0xDE00, 0xDC00, 0x80, 0x800, 0] := by
  have hlength : (formOfUnits Sample.surrogates).length ≤ 0xFFFF := by decide
  obtain ⟨-, -, -, hutf8⟩ := utf8_ofUnits Sample.surrogates hlength
  exact ⟨⟨[none, some (.ofUnits Sample.surrogates)]⟩, hlength, rfl, hutf8 _ 1 rfl⟩

end Jarsmith.ClassFile

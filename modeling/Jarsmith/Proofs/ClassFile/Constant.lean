import Jarsmith.ClassFile.Constant
import Jarsmith.Proofs.ClassFile.Cursor

/-!
# The form of a constant pool

A pool is the unused slot and then the slots of one constant after another, two for a wide one
(`ConstantPool.WellFormed`). `ConstantPool.decode_reads` says that the decoder reads exactly the
pools of this shape whose constants have the sizes of their tags, each from the bytes that
`ConstantPool.encode?` writes for it. Told slot by slot, the shape is that exactly the first slot
and those after wide constants are empty (`ConstantPool.wellFormed_iff`).

The decoder fills slots until their declared number is reached. `Fills` is what it does constant by
constant; whether the number was met is checked at the end, and where it was the constants fill the
pool exactly (`Fills.exists_constants`, `fills_constants`).
-/

namespace Jarsmith.ClassFile

open Decoder

/-! ### Constants -/

namespace Constant

variable {c : Constant} {bytes : Bytes}

/-- The payload has the size that the tag asks for; that of a text begins with its length. -/
def WellFormed (c : Constant) : Prop :=
  if c.tag = Tag.utf8 then
    ∃ length text : Bytes, Bytes.ofBig? 2 text.length = some length ∧ c.payload = length ++ text
  else Tag.fixedSize? c.tag = some c.payload.length

/-- The slots that a constant takes. -/
def slots (c : Constant) : List (Option Constant) :=
  if Tag.isWide c.tag then [some c, none] else [some c]

theorem tag_lt_of_fixedSize? {tag size : Nat} (h : Tag.fixedSize? tag = some size) :
    tag < 256 := by
  unfold Tag.fixedSize? at h
  split at h
  all_goals first | omega | simp at h

theorem WellFormed.tag_lt (h : c.WellFormed) : c.tag < 256 := by
  unfold WellFormed at h
  split at h
  · next htag =>
    rw [htag]
    decide
  · exact tag_lt_of_fixedSize? h

/-- The byte of a tag. -/
theorem ofBig?_tag_eq_some_iff {tag : Nat} (htag : tag < 256) :
    Bytes.ofBig? 1 tag = some bytes ↔ bytes = [tag.toUInt8] := by
  have hform : Bytes.ofBig? 1 tag = some [tag.toUInt8] :=
    Bytes.ofBig?_eq_some_iff.2 ⟨rfl, by
      simp [Bytes.big, Nat.toUInt8, UInt8.toNat_ofNat_of_lt' htag]⟩
  rw [hform, Option.some.injEq, eq_comm]

/-- What follows a tag is the payload. -/
theorem payload_reads (index tag : Nat) :
    Reads (show Decoder Constant from if tag = Tag.utf8 then do
        let length ← Decoder.number 2
        return ⟨tag, Bytes.ofBig 2 length ++ (← Decoder.bytes length)⟩
      else match Tag.fixedSize? tag with
        | some size => return ⟨tag, ← Decoder.bytes size⟩
        | none => Decoder.fail (.unknownTag tag index))
      fun c bytes => c.WellFormed ∧ c = ⟨tag, bytes⟩ := by
  by_cases htag : tag = Tag.utf8
  · -- the length that was read is the first part of the payload
    rw [if_pos htag]
    refine ((Reads.number 2).bind fun length _ _ =>
      (Reads.bytes length).map).congr fun c bytes => ?_
    constructor
    · rintro ⟨_, b, _, hb, ⟨text, ⟨rfl, rfl⟩, rfl⟩, rfl⟩
      have hform : Bytes.ofBig 2 text.length = b := Bytes.ofBig_of_ofBig? hb
      rw [hform]
      exact ⟨by rw [WellFormed, if_pos htag]; exact ⟨b, text, hb, rfl⟩, rfl⟩
    · rintro ⟨hc, rfl⟩
      rw [WellFormed, if_pos htag] at hc
      obtain ⟨b, text, hb, rfl⟩ := hc
      refine ⟨_, b, text, hb, ⟨text, ⟨rfl, rfl⟩, ?_⟩, rfl⟩
      rw [Bytes.ofBig_of_ofBig? hb]
  · rw [if_neg htag]
    have hsize (bytes : Bytes) : WellFormed ⟨tag, bytes⟩ ↔
        Tag.fixedSize? tag = some bytes.length := by rw [WellFormed, if_neg htag]
    cases h : Tag.fixedSize? tag with
    | none =>
      refine (Reads.fail _).congr fun c bytes => iff_of_false id ?_
      rintro ⟨hc, rfl⟩
      simp [hsize, h] at hc
    | some size =>
      refine (Reads.bytes size).map.congr fun c bytes => ?_
      constructor
      · rintro ⟨_, ⟨rfl, rfl⟩, rfl⟩
        exact ⟨(hsize _).2 h, rfl⟩
      · rintro ⟨hc, rfl⟩
        rw [hsize, h, Option.some.injEq] at hc
        exact ⟨bytes, ⟨hc.symm, rfl⟩, rfl⟩

theorem decode_reads (index : Nat) :
    Reads (decode index) fun c bytes => c.WellFormed ∧ c.encode = bytes := by
  refine ((Reads.number 1).bind fun tag _ _ => payload_reads index tag).congr fun c bytes => ?_
  unfold encode
  constructor
  · rintro ⟨tag, b, rest, hb, ⟨hc, rfl⟩, rfl⟩
    -- tags that are known fit a byte, so nothing is lost where the tag is written as one
    rw [ofBig?_tag_eq_some_iff hc.tag_lt] at hb
    exact ⟨hc, by rw [hb]; rfl⟩
  · rintro ⟨hc, rfl⟩
    exact ⟨c.tag, _, c.payload, (ofBig?_tag_eq_some_iff hc.tag_lt).2 rfl, ⟨hc, rfl⟩, rfl⟩

end Constant

/-! ### Pools -/

namespace ConstantPool

variable {count : Nat} {slots result : List (Option Constant)} {bytes : Bytes}
  {pool : ConstantPool}

/-- The slots of constants one after another. -/
def slotsOf (constants : List Constant) : List (Option Constant) :=
  constants.flatMap Constant.slots

/-- After the unused slot there are those of constants, each of the size of its tag. -/
def WellFormed (pool : ConstantPool) : Prop :=
  ∃ constants : List Constant, (∀ c ∈ constants, c.WellFormed) ∧
    pool.slots = none :: slotsOf constants

/-- What the decoder reads that has filled `slots`, last first, and goes on until there are
`count`. -/
inductive Fills (count : Nat) : List (Option Constant) → List (Option Constant) → Bytes → Prop
  | done {slots : List (Option Constant)} : ¬ slots.length < count →
      Fills count slots slots.reverse []
  | more {slots result : List (Option Constant)} {c : Constant} {rest : Bytes} :
      slots.length < count → c.WellFormed → Fills count (c.slots.reverse ++ slots) result rest →
      Fills count slots result (c.encode ++ rest)

theorem decodeSlots_reads (count : Nat) (slots : List (Option Constant)) :
    Reads (decodeSlots count slots) (Fills count slots) := by
  rw [decodeSlots]
  split
  · next hlt =>
    have hnext (c : Constant) : Reads
        (if Tag.isWide c.tag then decodeSlots count (none :: some c :: slots)
          else decodeSlots count (some c :: slots)) (Fills count (c.slots.reverse ++ slots)) := by
      unfold Constant.slots
      split
      · exact decodeSlots_reads count (none :: some c :: slots)
      · exact decodeSlots_reads count (some c :: slots)
    refine ((Constant.decode_reads _).bind fun c _ _ => hnext c).congr fun result bytes => ?_
    constructor
    · rintro ⟨c, _, rest, ⟨hc, rfl⟩, hrest, rfl⟩
      exact .more hlt hc hrest
    · intro h
      cases h with
      | done hnot => exact absurd hlt hnot
      | more _ hc hrest => exact ⟨_, _, _, ⟨hc, rfl⟩, hrest, rfl⟩
  · next hnot =>
    refine (Reads.pure _).congr fun result bytes => ?_
    constructor
    · rintro ⟨rfl, rfl⟩
      exact .done hnot
    · intro h
      cases h with
      | done => exact ⟨rfl, rfl⟩
      | more hlt => exact absurd hlt hnot
termination_by count - slots.length

theorem Fills.exists_constants (h : Fills count slots result bytes) :
    ∃ constants : List Constant, (∀ c ∈ constants, c.WellFormed) ∧
      result = slots.reverse ++ slotsOf constants ∧ bytes = constants.flatMap Constant.encode := by
  induction h with
  | done => exact ⟨[], by simp, by simp [slotsOf], rfl⟩
  | @more _ _ c _ _ hc _ ih =>
    obtain ⟨constants, hall, rfl, rfl⟩ := ih
    exact ⟨c :: constants, List.forall_mem_cons.2 ⟨hc, hall⟩, by simp [slotsOf], rfl⟩

/-- Constants that fill the slots exactly are all read, since before each of them a slot is left. -/
theorem fills_constants {constants : List Constant} (hall : ∀ c ∈ constants, c.WellFormed)
    (hcount : slots.length + (slotsOf constants).length = count) :
    Fills count slots (slots.reverse ++ slotsOf constants)
      (constants.flatMap Constant.encode) := by
  induction constants generalizing slots with
  | nil =>
    have hdone : ¬ slots.length < count := by
      simp only [slotsOf, List.flatMap_nil, List.length_nil] at hcount
      omega
    simpa [slotsOf] using Fills.done hdone
  | cons c constants ih =>
    obtain ⟨hc, hall⟩ := List.forall_mem_cons.1 hall
    have hpos : 0 < c.slots.length := by
      unfold Constant.slots
      split <;> simp
    have hsplit : slotsOf (c :: constants) = c.slots ++ slotsOf constants := rfl
    rw [hsplit, List.length_append] at hcount
    have hcount' : (c.slots.reverse ++ slots).length + (slotsOf constants).length = count := by
      rw [List.length_append, List.length_reverse]
      omega
    have hrest := ih hall hcount'
    rw [hsplit, ← List.append_assoc]
    rw [List.reverse_append, List.reverse_reverse] at hrest
    exact .more (by omega) hc hrest

theorem map_constants (pool : ConstantPool) :
    pool.constants.map Prod.snd = pool.slots.filterMap id := by
  have hslots : pool.slots.filterMap id = (pool.slots.zipIdx.map Prod.fst).filterMap id := by
    rw [List.zipIdx_map_fst]
  unfold constants
  rw [hslots, List.map_filterMap, List.filterMap_map]
  congr 1
  funext p
  obtain ⟨slot, index⟩ := p
  cases slot <;> rfl

theorem filterMap_slotsOf (constants : List Constant) :
    (slotsOf constants).filterMap id = constants := by
  induction constants with
  | nil => rfl
  | cons c constants ih =>
    show (c.slots ++ slotsOf constants).filterMap id = _
    rw [List.filterMap_append, ih]
    unfold Constant.slots
    split <;> rfl

/-- The bytes of a pool are the number of its slots and those of its constants. -/
theorem encode?_eq_some_iff {constants : List Constant}
    (hslots : pool.slots = none :: slotsOf constants) : pool.encode? = some bytes ↔
      ∃ b, Bytes.ofBig? 2 pool.slots.length = some b ∧
        bytes = b ++ constants.flatMap Constant.encode := by
  have hconstants : pool.constants.flatMap (fun p => p.2.encode) =
      constants.flatMap Constant.encode := by
    have hmap : pool.constants.map Prod.snd = constants := by
      rw [map_constants, hslots, List.filterMap_cons_none rfl, filterMap_slotsOf]
    rw [← hmap, List.flatMap_map]
  unfold encode? size
  simp only [Option.bind_eq_bind, Option.bind_eq_some_iff, Option.pure_def, Option.some.injEq]
  rw [hconstants]
  simp only [eq_comm]

/-- A pool is read exactly from what is written for it. -/
theorem decode_reads :
    Reads decode fun pool bytes => pool.WellFormed ∧ pool.encode? = some bytes := by
  -- in the end there must be as many slots as were declared, neither fewer nor more
  have hfinish (count : Nat) (slots : List (Option Constant)) : Reads
      (if slots.length = count then pure ⟨slots⟩ else Decoder.fail .slotMismatch)
      (fun pool bytes => slots.length = count ∧ pool = (⟨slots⟩ : ConstantPool) ∧ bytes = []) := by
    by_cases hcount : slots.length = count
    · rw [if_pos hcount]
      exact (Reads.pure _).congr fun pool bytes => (and_iff_right hcount).symm
    · rw [if_neg hcount]
      exact (Reads.fail _).congr fun pool bytes => (iff_of_false id fun h => hcount h.1)
  refine ((Reads.number 2).bind fun count _ _ => (decodeSlots_reads count [none]).bind
    fun slots _ _ => hfinish count slots).congr fun pool bytes => ?_
  constructor
  · rintro ⟨_, b, _, hb, ⟨slots, rest, _, hfills, ⟨rfl, rfl, rfl⟩, rfl⟩, rfl⟩
    obtain ⟨constants, hall, hslots, rfl⟩ := hfills.exists_constants
    refine ⟨⟨constants, hall, hslots⟩, (encode?_eq_some_iff hslots).2 ⟨b, hb, ?_⟩⟩
    rw [List.append_nil]
  · rintro ⟨⟨constants, hall, hslots⟩, hencode⟩
    obtain ⟨b, hb, rfl⟩ := (encode?_eq_some_iff hslots).1 hencode
    have hfills : Fills pool.slots.length [none] pool.slots
        (constants.flatMap Constant.encode) := by
      rw [hslots]
      exact fills_constants hall (Nat.add_comm _ _)
    exact ⟨_, b, _, hb, ⟨pool.slots, _, [], hfills, ⟨rfl, rfl, rfl⟩, (List.append_nil _).symm⟩, rfl⟩

/-! ### Which slots are empty -/

/-- The slot holds a constant that takes the slot after it too. -/
def IsWide (slot : Option Constant) : Prop := ∃ c, slot = some c ∧ Tag.isWide c.tag = true

/-- After a slot that needs no second one, a slot of constants is empty exactly if the one before it
is wide. -/
theorem getElem?_slotsOf_eq_none_iff (constants : List Constant) {first : Option Constant}
    (hfirst : ¬ IsWide first) (i : Nat) : (slotsOf constants)[i]? = some none ↔
      ∃ slot, (first :: slotsOf constants)[i]? = some slot ∧ IsWide slot := by
  induction constants generalizing first i with
  | nil =>
    refine iff_of_false (by simp [slotsOf]) ?_
    rintro ⟨slot, hslot, hwide⟩
    cases i with
    | zero => exact hfirst (Option.some.inj hslot ▸ hwide)
    | succ i => simp [slotsOf] at hslot
  | cons c constants ih =>
    by_cases hc : Tag.isWide c.tag = true
    · have hslots : slotsOf (c :: constants) = some c :: none :: slotsOf constants := by
        simp [slotsOf, Constant.slots, hc]
      have hnone : ¬ IsWide none := by simp [IsWide]
      rw [hslots]
      match i with
      | 0 => simp [hfirst]
      | 1 => simp [IsWide, hc]
      | i + 2 => simpa using ih hnone i
    · have hslots : slotsOf (c :: constants) = some c :: slotsOf constants := by
        simp [slotsOf, Constant.slots, hc]
      have hsome : ¬ IsWide (some c) := by simpa [IsWide] using hc
      rw [hslots]
      match i with
      | 0 => simp [hfirst]
      | i + 1 => simpa using ih hsome i

/-- Slots of which exactly those after wide ones are empty are the slots of constants. -/
theorem exists_slotsOf : ∀ {slots : List (Option Constant)} {first : Option Constant},
    ¬ IsWide first → (∀ c, some c ∈ slots → c.WellFormed) →
    (∀ i : Nat, slots[i]? = some none ↔
      ∃ slot, (first :: slots)[i]? = some slot ∧ IsWide slot) →
    ∃ constants : List Constant, (∀ c ∈ constants, c.WellFormed) ∧ slots = slotsOf constants
  | [], _, _, _, _ => ⟨[], by simp, rfl⟩
  | none :: _, _, hfirst, _, hempty => by
    obtain ⟨slot, hslot, hwide⟩ := (hempty 0).1 rfl
    exact absurd (Option.some.inj hslot ▸ hwide) hfirst
  | some c :: rest, first, _, hall, hempty => by
    have hc := hall c List.mem_cons_self
    by_cases hwide : Tag.isWide c.tag = true
    · have hnext : (some c :: rest)[1]? = some none := (hempty 1).2 ⟨some c, rfl, c, rfl, hwide⟩
      obtain ⟨rest, rfl⟩ : ∃ rest', rest = none :: rest' := by
        cases rest with
        | nil => simp at hnext
        | cons slot rest => exact ⟨rest, by simpa using hnext⟩
      obtain ⟨constants, hconstants, rfl⟩ := @exists_slotsOf rest none
        (by simp [IsWide]) (fun c' h => hall c' (List.mem_cons_of_mem _ (List.mem_cons_of_mem _ h)))
        (fun i => by simpa using hempty (i + 2))
      exact ⟨c :: constants, List.forall_mem_cons.2 ⟨hc, hconstants⟩,
        by simp [slotsOf, Constant.slots, hwide]⟩
    · obtain ⟨constants, hconstants, rfl⟩ := @exists_slotsOf rest (some c)
        (by simpa [IsWide] using hwide) (fun c' h => hall c' (List.mem_cons_of_mem _ h))
        (fun i => by simpa using hempty (i + 1))
      exact ⟨c :: constants, List.forall_mem_cons.2 ⟨hc, hconstants⟩,
        by simp [slotsOf, Constant.slots, hwide]⟩

/-- A pool is well formed exactly if its constants are, and the slots that are empty are the first
one and those after wide constants. -/
theorem wellFormed_iff : pool.WellFormed ↔ (∀ c, some c ∈ pool.slots → c.WellFormed) ∧
    pool.slots[0]? = some none ∧ ∀ i, pool.slots[i + 1]? = some none ↔
      ∃ slot, pool.slots[i]? = some slot ∧ IsWide slot := by
  have hnone : ¬ IsWide none := by simp [IsWide]
  constructor
  · rintro ⟨constants, hall, hslots⟩
    rw [hslots]
    refine ⟨fun c hc => hall c ?_, rfl, fun i => ?_⟩
    · rw [← filterMap_slotsOf constants, List.mem_filterMap]
      exact ⟨some c, by simpa using hc, rfl⟩
    · simpa using getElem?_slotsOf_eq_none_iff constants hnone i
  · rintro ⟨hall, hfirst, hempty⟩
    unfold WellFormed
    cases hslots : pool.slots with
    | nil => simp [hslots] at hfirst
    | cons slot rest =>
      rw [hslots] at hall hfirst hempty
      obtain rfl : slot = none := by simpa using hfirst
      obtain ⟨constants, hconstants, rfl⟩ := exists_slotsOf hnone
        (fun c hc => hall c (List.mem_cons_of_mem _ hc)) (fun i => by simpa using hempty i)
      exact ⟨constants, hconstants, rfl⟩

end ConstantPool

end Jarsmith.ClassFile

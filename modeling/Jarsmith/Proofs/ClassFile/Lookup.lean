import Mathlib.Data.List.Basic
import Jarsmith.Fault
import Jarsmith.Proofs.ClassFile.Constant
import Jarsmith.Proofs.ClassFile.Reference

/-!
# Looking things up in a pool that was read

A pool that was read has as many slots as were declared, and its payloads have the sizes of their
tags (`ConstantPool.Declares`). So a constant that is looked up either stands at its index or is
missed in a way that an error tells (`ConstantPool.getTagged_cases`), and where a constant holds an
index, its two bytes are there.

The functions of this library that follow such indexes take zero for bytes that are missing. To say
that it never comes to this, `Lookup` does the same with a read that stops beyond a payload: on a
pool that was read, it finds what they find (`Lookup.className_eq`, `Lookup.references_eq`).
-/

namespace Jarsmith.ClassFile

/-! ### The slots of a pool -/

namespace ConstantPool

variable {pool : ConstantPool} {bytes : Bytes}

/-- The pool has `count` slots. The empty ones are the first and those after wide constants, and
each payload has the size that its tag asks for. -/
structure Declares (count : Nat) (pool : ConstantPool) : Prop where
  pos : 1 ≤ count
  size : pool.size = count
  first : pool.slots[0]? = some none
  empty_iff : ∀ i, pool.slots[i + 1]? = some none ↔
    ∃ c, pool.slots[i]? = some (some c) ∧ (c.tag = Tag.long ∨ c.tag = Tag.double)
  payload : ∀ c, some c ∈ pool.slots → c.WellFormed

theorem isWide_iff {slot : Option Constant} :
    IsWide slot ↔ ∃ c, slot = some c ∧ (c.tag = Tag.long ∨ c.tag = Tag.double) := by
  simp [IsWide, Tag.isWide]

theorem declares_iff {count : Nat} : pool.Declares count ↔ pool.WellFormed ∧ pool.size = count := by
  have hslot (i : Nat) : (∃ slot, pool.slots[i]? = some slot ∧ IsWide slot) ↔
      ∃ c, pool.slots[i]? = some (some c) ∧ (c.tag = Tag.long ∨ c.tag = Tag.double) := by
    simp only [isWide_iff]
    constructor
    · rintro ⟨_, hslot, c, rfl, hwide⟩
      exact ⟨c, hslot, hwide⟩
    · rintro ⟨c, hslot, hwide⟩
      exact ⟨_, hslot, c, rfl, hwide⟩
  rw [wellFormed_iff]
  simp only [hslot]
  constructor
  · intro h
    exact ⟨⟨h.payload, h.first, h.empty_iff⟩, h.size⟩
  · rintro ⟨⟨hall, hfirst, hempty⟩, rfl⟩
    obtain ⟨hpos, -⟩ := List.getElem?_eq_some_iff.1 hfirst
    exact ⟨hpos, rfl, hfirst, hempty, hall⟩

/-- What is written for a pool begins with the number of its slots, whatever follows it. -/
theorem big_take_of_encode? (h : pool.encode? = some bytes) (more : Bytes) :
    Bytes.big ((bytes ++ more).take 2) = pool.size := by
  unfold encode? at h
  simp only [Option.bind_eq_bind, Option.bind_eq_some_iff, Option.pure_def, Option.some.injEq] at h
  obtain ⟨count, hcount, rfl⟩ := h
  obtain ⟨hlength, hsize⟩ := Bytes.ofBig?_eq_some_iff.1 hcount
  rw [List.append_assoc, List.take_left' hlength]
  omega

/-- A pool is read exactly where the bytes begin with what is written for it, and then has the
slots that they declare. -/
theorem decode_eq_ok_iff {cursor after : Cursor} : decode.run cursor = .ok (pool, after) ↔
    pool.Declares (Bytes.big (cursor.rest.take 2)) ∧ ∃ consumed, pool.encode? = some consumed ∧
      cursor.rest = consumed ++ after.rest ∧ after.offset = cursor.offset + consumed.length := by
  rw [decode_reads cursor pool after, declares_iff]
  constructor
  · rintro ⟨consumed, ⟨hpool, hencode⟩, hrest, hoffset⟩
    have hcount := big_take_of_encode? hencode after.rest
    rw [← hrest] at hcount
    exact ⟨⟨hpool, hcount.symm⟩, consumed, hencode, hrest, hoffset⟩
  · rintro ⟨⟨hpool, -⟩, consumed, hencode, hrest, hoffset⟩
    exact ⟨consumed, ⟨hpool, hencode⟩, hrest, hoffset⟩

/-- The constant stands at the index, which is not that of the unused slot. -/
def IsAt (pool : ConstantPool) (index : Int) (c : Constant) : Prop :=
  0 < index ∧ pool.slots[index.toNat]? = some (some c)

theorem IsAt.mem {index : Int} {c : Constant} (h : pool.IsAt index c) : some c ∈ pool.slots :=
  List.mem_of_getElem? h.2

/-- A constant that is looked up is the one at the index. -/
theorem get_cases (pool : ConstantPool) (index : Int) :
    (∃ c, pool.get index = .ok c ∧ pool.IsAt index c) ∨
      pool.get index = .error (.badIndex index) := by
  unfold get
  split
  · next hpos =>
    split
    · next c hslot => exact .inl ⟨c, rfl, hpos, hslot⟩
    · exact .inr rfl
  · exact .inr rfl

theorem getTagged_of_get {index : Int} {c : Constant} (hget : pool.get index = .ok c) (tag : Nat) :
    pool.getTagged index tag =
      if c.tag = tag then .ok c else .error (.tagMismatch index c.tag tag) := by
  unfold getTagged
  rw [hget]
  rfl

/-- A constant that is looked up has the tag that was asked for. Otherwise the error says what is
wrong at the index. -/
theorem getTagged_cases (pool : ConstantPool) (index : Int) (tag : Nat) :
    (∃ c, pool.getTagged index tag = .ok c ∧ pool.IsAt index c ∧ c.tag = tag) ∨
      pool.getTagged index tag = .error (.badIndex index) ∨
      ∃ found, found ≠ tag ∧ pool.getTagged index tag = .error (.tagMismatch index found tag) := by
  obtain ⟨c, hget, hc⟩ | hget := pool.get_cases index
  · by_cases htag : c.tag = tag
    · exact .inl ⟨c, (getTagged_of_get hget tag).trans (if_pos htag), hc, htag⟩
    · exact .inr (.inr ⟨c.tag, htag, (getTagged_of_get hget tag).trans (if_neg htag)⟩)
  · refine .inr (.inl ?_)
    unfold getTagged
    rw [hget]
    rfl

end ConstantPool

/-! ### Lookups that stop beyond a payload -/

/-- A search that gives no result where a number would be read beyond the end of a payload. -/
abbrev Lookup := OptionT (Except Error)

namespace Lookup

/-- The number in the two bytes at `offset` of the payload, which must be there. -/
def index (k : Constant) (offset : Nat) : Lookup Nat := OptionT.mk (.ok (k.indexAt? offset))

/-- The name of the class at an index, in the form with slashes. -/
def className (pool : ConstantPool) (i : Int) : Lookup Text := do
  let k ← pool.getTagged i Tag.classRef
  pool.utf8 (← index k 0)

/-- The classes that a constant stands for. -/
def classNames (pool : ConstantPool) (k : Constant) : Lookup (List Text) := do
  if k.tag = Tag.classRef then return constantNames (← pool.utf8 (← index k 0)) else return []

/-- Where string literals hold the index of their text. -/
def literalPlace? (tag : Nat) : Option Nat := if tag = Tag.string then some 0 else none

/-- Where constants hold the index of a descriptor. -/
def descriptorPlace? (tag : Nat) : Option Nat :=
  if tag = Tag.nameAndType then some 2 else if tag = Tag.methodType then some 0 else none

/-- The index that a constant holds where `place?` says for its tag. -/
def heldIndex (place? : Nat → Option Nat) (k : Constant) : Lookup (Option Nat) :=
  match place? k.tag with
  | some offset => return some (← index k offset)
  | none => return none

/-- The indexes that the constants of a pool hold where `place?` says. -/
def heldIndexes (place? : Nat → Option Nat) (pool : ConstantPool) : Lookup (List Nat) := do
  let held ← pool.constants.mapM fun (_, k) => heldIndex place? k
  return held.filterMap id

/-- The classes that the class constants of a pool stand for. -/
def classConstantNames (pool : ConstantPool) : Lookup (List Text) := do
  let names ← pool.constants.mapM fun (_, k) => classNames pool k
  return names.flatten

/-- The classes named in the texts of the pool that may hold types. -/
def textNames (c : ClassFile) : Lookup (List Text) := do
  let literals ← heldIndexes literalPlace? c.pool
  let descriptors ← heldIndexes descriptorPlace? c.pool
  let isScanned (i : Nat) : Bool := !literals.contains i || descriptors.contains i ||
    (c.fields ++ c.methods).any (·.descriptorIndex == i)
  let names ← c.pool.constants.mapM fun (i, k) => do
    if k.tag = Tag.utf8 && isScanned i then return typeNames (← c.pool.utf8 i) else return []
  return names.flatten

/-- The other classes that a class file names, each once. -/
def references (c : ClassFile) : Lookup (List Text) := do
  let constants ← classConstantNames c.pool
  let texts ← textNames c
  let self ← className c.pool c.thisClass
  return (Text.unique (constants ++ texts)).filter (· ≠ dotted self)

variable {pool : ConstantPool} {k : Constant} {place? : Nat → Option Nat}

/-! ### Every index is inside its payload -/

theorem exists_indexAt? {offset : Nat} (h : offset + 2 ≤ k.payload.length) :
    ∃ i, k.indexAt? offset = some i := by
  have hlength : (Bytes.slice k.payload offset 2).length = 2 := by
    rw [Bytes.slice, List.length_take, List.length_drop]
    omega
  obtain ⟨a, b, hslice⟩ := List.length_eq_two.1 hlength
  exact ⟨Bytes.big [a, b], by rw [Constant.indexAt?, hslice]⟩

/-- A constant of a fixed size has an index wherever its size has room for one. -/
theorem index_eq {offset size : Nat} (hk : k.WellFormed) (hsize : Tag.fixedSize? k.tag = some size)
    (hoffset : offset + 2 ≤ size) : index k offset = pure (k.indexAt offset) := by
  have htag : k.tag ≠ Tag.utf8 := by
    intro htag
    rw [htag] at hsize
    simp [Tag.fixedSize?] at hsize
  rw [Constant.WellFormed, if_neg htag, hsize, Option.some.injEq] at hk
  obtain ⟨i, hi⟩ := exists_indexAt? (k := k) (hk ▸ hoffset)
  unfold index Constant.indexAt
  rw [hi]
  rfl

theorem mapM_eq {α β : Type} {f : α → Lookup β} {g : α → Except Error β} {as : List α}
    (h : ∀ a ∈ as, f a = liftM (g a)) : as.mapM f = liftM (as.mapM g) := by
  induction as with
  | nil => rfl
  | cons a as ih =>
    obtain ⟨ha, has⟩ := List.forall_mem_cons.1 h
    rw [List.mapM_cons, List.mapM_cons, ha, ih has]
    simp only [liftM_bind, liftM_pure]

theorem className_eq (hall : ∀ k, some k ∈ pool.slots → k.WellFormed) (i : Int) :
    className pool i = liftM (pool.className i) := by
  unfold className ConstantPool.className
  rw [liftM_bind]
  obtain ⟨k, hget, hk, htag⟩ | hget | ⟨found, -, hget⟩ := pool.getTagged_cases i Tag.classRef
  · have hindex := index_eq (hall k hk.mem) (by rw [htag]; rfl) (Nat.le_refl 2)
    rw [hget]
    show (index k 0 >>= fun j => liftM (pool.utf8 j)) = liftM (pool.utf8 (k.indexAt 0))
    rw [hindex, pure_bind]
  · rw [hget]
    rfl
  · rw [hget]
    rfl

theorem classConstantNames_eq (hall : ∀ p ∈ pool.constants, p.2.WellFormed) :
    classConstantNames pool = liftM (ClassFile.classConstantNames pool) := by
  have hnames : ∀ p ∈ pool.constants, classNames pool p.2 = liftM (show Except Error _ from do
      if p.2.tag = Tag.classRef then return constantNames (← pool.utf8 (p.2.indexAt 0))
      else return []) := by
    intro p hp
    unfold classNames
    split
    · next htag =>
      rw [index_eq (hall p hp) (by rw [htag]; rfl) (Nat.le_refl 2)]
      simp only [pure_bind, liftM_bind, liftM_pure]
    · rfl
  unfold classConstantNames ClassFile.classConstantNames
  rw [mapM_eq hnames]
  simp only [liftM_bind, liftM_pure]

/-- A place has room for an index in the constants of its tag. -/
def HasRoom (place? : Nat → Option Nat) : Prop :=
  ∀ tag offset, place? tag = some offset →
    ∃ size, Tag.fixedSize? tag = some size ∧ offset + 2 ≤ size

theorem hasRoom_literalPlace? : HasRoom literalPlace? := by
  intro tag offset h
  unfold literalPlace? at h
  split at h
  · next htag =>
    obtain rfl := Option.some.inj h
    exact ⟨2, by rw [htag]; rfl, Nat.le_refl 2⟩
  · simp at h

theorem hasRoom_descriptorPlace? : HasRoom descriptorPlace? := by
  intro tag offset h
  unfold descriptorPlace? at h
  split at h
  · next htag =>
    obtain rfl := Option.some.inj h
    exact ⟨4, by rw [htag]; rfl, Nat.le_refl 4⟩
  · split at h
    · next htag =>
      obtain rfl := Option.some.inj h
      exact ⟨2, by rw [htag]; rfl, Nat.le_refl 2⟩
    · simp at h

theorem heldIndex_eq (hroom : HasRoom place?) (hk : k.WellFormed) :
    heldIndex place? k = pure ((place? k.tag).map k.indexAt) := by
  unfold heldIndex
  cases hplace : place? k.tag with
  | none => rfl
  | some offset =>
    obtain ⟨size, hsize, hoffset⟩ := hroom _ _ hplace
    show (do return some (← index k offset)) = _
    rw [index_eq hk hsize hoffset]
    rfl

theorem heldIndexes_eq (hroom : HasRoom place?) (hall : ∀ p ∈ pool.constants, p.2.WellFormed) :
    heldIndexes place? pool =
      pure (pool.constants.filterMap fun p => (place? p.2.tag).map p.2.indexAt) := by
  have hheld : (pool.constants.mapM fun (_, k) => heldIndex place? k) =
      pure (pool.constants.map fun p => (place? p.2.tag).map p.2.indexAt) := by
    rw [mapM_eq (g := fun p => pure ((place? p.2.tag).map p.2.indexAt))
      fun p hp => heldIndex_eq hroom (hall p hp), List.mapM_pure, liftM_pure]
  unfold heldIndexes
  rw [hheld, pure_bind, List.filterMap_map]
  rfl

theorem literalIndexes_eq : literalIndexes pool =
    pool.constants.filterMap fun p => (literalPlace? p.2.tag).map p.2.indexAt := by
  unfold literalIndexes literalPlace?
  congr 1
  funext ⟨i, k⟩
  dsimp only
  split <;> rfl

theorem descriptorIndexes_eq : descriptorIndexes pool =
    pool.constants.filterMap fun p => (descriptorPlace? p.2.tag).map p.2.indexAt := by
  unfold descriptorIndexes descriptorPlace?
  congr 1
  funext ⟨i, k⟩
  dsimp only
  split
  · rfl
  · split <;> rfl

theorem textNames_eq {c : ClassFile} (hall : ∀ p ∈ c.pool.constants, p.2.WellFormed) :
    textNames c = liftM c.textNames := by
  have htexts : ∀ p ∈ c.pool.constants, (show Lookup (List Text) from do
      if p.2.tag = Tag.utf8 && isScanned c p.1 then return typeNames (← c.pool.utf8 p.1)
      else return []) = liftM (show Except Error _ from do
        if p.2.tag = Tag.utf8 && isScanned c p.1 then return typeNames (← c.pool.utf8 p.1)
        else return []) := by
    intro p _
    split
    · simp only [liftM_bind, liftM_pure]
    · rfl
  unfold textNames
  rw [heldIndexes_eq hasRoom_literalPlace? hall, ← literalIndexes_eq, pure_bind,
    heldIndexes_eq hasRoom_descriptorPlace? hall, ← descriptorIndexes_eq, pure_bind]
  unfold ClassFile.textNames
  simp only [liftM_bind, liftM_pure]
  rw [← mapM_eq htexts]
  rfl

/-- The references are found without a read beyond a payload. -/
theorem references_eq {c : ClassFile} (hall : ∀ k, some k ∈ c.pool.slots → k.WellFormed) :
    references c = liftM c.references := by
  have hconstants : ∀ p ∈ c.pool.constants, p.2.WellFormed := by
    rintro ⟨i, k⟩ hp
    exact hall k (List.mem_of_getElem? (ConstantPool.mem_constants_iff.1 hp))
  have hname : c.name = (do return dotted (← c.pool.className c.thisClass)) := by
    unfold name
    cases c.pool.className c.thisClass <;> rfl
  unfold references ClassFile.references
  rw [classConstantNames_eq hconstants, textNames_eq hconstants, className_eq hall, hname]
  simp only [liftM_bind, liftM_pure, bind_assoc, pure_bind]

end Lookup

/-! ### A pool that was read -/

/-- **What holds of a pool that was read.** It has the slots that were declared, and what is written
for it are the bytes that were read. What is looked up in it is the constant at the index, with the
tag that was asked for, or what is wrong there is told as malformed. The name of a class, and the
references of every class file that has the pool, are found without a read beyond a payload. -/
theorem ConstantPool.decode_declares {cursor after : Cursor} {pool : ConstantPool}
    (h : ConstantPool.decode.run cursor = .ok (pool, after)) :
    pool.Declares (Bytes.big (cursor.rest.take 2)) ∧
    (∃ consumed, pool.encode? = some consumed ∧ cursor.rest = consumed ++ after.rest ∧
      after.offset = cursor.offset + consumed.length) ∧
    (∀ i : Int, (∃ c, pool.get i = .ok c ∧ pool.IsAt i c) ∨
      ∃ e, pool.get i = .error e ∧ (Fault.classFile e).kind = "ParseError") ∧
    (∀ (i : Int) (tag : Nat), (∃ c, pool.getTagged i tag = .ok c ∧ pool.IsAt i c ∧ c.tag = tag) ∨
      ∃ e, pool.getTagged i tag = .error e ∧ (Fault.classFile e).kind = "ParseError") ∧
    (∀ i : Int, Lookup.className pool i = liftM (pool.className i)) ∧
    ∀ c : ClassFile, c.pool = pool → Lookup.references c = liftM c.references := by
  obtain ⟨hdeclares, hconsumed⟩ := ConstantPool.decode_eq_ok_iff.1 h
  refine ⟨hdeclares, hconsumed, fun i => ?_, fun i tag => ?_,
    Lookup.className_eq hdeclares.payload, ?_⟩
  · obtain hfound | hbad := pool.get_cases i
    · exact .inl hfound
    · exact .inr ⟨_, hbad, rfl⟩
  · obtain hfound | hbad | ⟨found, -, hother⟩ := pool.getTagged_cases i tag
    · exact .inl hfound
    · exact .inr ⟨_, hbad, rfl⟩
    · exact .inr ⟨_, hother, rfl⟩
  · rintro c rfl
    exact Lookup.references_eq hdeclares.payload

namespace Sample

/-- Six slots, of which a wide constant takes two, a text, a class, and a name with a descriptor. -/
def pool : Bytes :=
  [0, 6] ++ [5, 0, 0, 0, 0, 0, 0, 0, 7] ++ [1, 0, 1, 0x41] ++ [7, 0, 3] ++ [12, 0, 3, 0, 3]

end Sample

/-- A pool with a wide constant, read from bytes that go on after it. -/
theorem ConstantPool.decode_declares_of_wide : ∃ pool after,
    ConstantPool.decode.run (.start (Sample.pool ++ [0xFF])) = .ok (pool, after) ∧
      after.rest = [0xFF] ∧ pool.Declares 6 ∧ pool.slots[2]? = some none ∧
      Lookup.className pool 4 = pure ("A" : Text) := by
  have hfacts : (ConstantPool.decode.run (.start (Sample.pool ++ [0xFF]))).toOption.map (fun p =>
      (p.2.rest, p.1.slots[2]?, (p.1.className 4).toOption)) =
        some (([0xFF] : Bytes), some none, some ("A" : Text)) := by decide +kernel
  obtain ⟨⟨pool, after⟩, hread, hfacts⟩ := Option.map_eq_some_iff.1 hfacts
  rw [Except.toOption_eq_some] at hread
  simp only [Prod.mk.injEq, Except.toOption_eq_some] at hfacts
  obtain ⟨hrest, hslot, hname⟩ := hfacts
  obtain ⟨hdeclares, -, -, -, hlookup, -⟩ := ConstantPool.decode_declares hread
  refine ⟨pool, after, hread, hrest, hdeclares, hslot, ?_⟩
  rw [hlookup, hname]
  rfl

end Jarsmith.ClassFile

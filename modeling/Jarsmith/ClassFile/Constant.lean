import Jarsmith.ClassFile.Cursor

/-!
# The constant pool

A class file refers to names, types and literals by their index in its constant pool. A constant is
kept as its tag and the bytes after it. Index zero is never used, and the slot after a constant of
eight bytes stays empty, so the pool is a list of slots that may be empty.

`ConstantPool.get`, `ConstantPool.utf8` and `ConstantPool.className` look constants up;
`ConstantPool.decode` and `ConstantPool.encode?` read and write the pool.
-/

namespace Jarsmith.ClassFile

namespace Tag

/-- A text in modified UTF-8, after its length. -/
abbrev utf8 : Nat := 1

/-- A number of four bytes. -/
abbrev integer : Nat := 3

/-- A floating point number of four bytes. -/
abbrev float : Nat := 4

/-- A number of eight bytes. -/
abbrev long : Nat := 5

/-- A floating point number of eight bytes. -/
abbrev double : Nat := 6

/-- A class, by the index of its name. -/
abbrev classRef : Nat := 7

/-- A string literal, by the index of its text. -/
abbrev string : Nat := 8

/-- A name and a descriptor. -/
abbrev nameAndType : Nat := 12

/-- A method type, by the index of its descriptor. -/
abbrev methodType : Nat := 16

/-- The number of bytes after each tag whose constants all have one length. -/
def fixedSize? : Nat → Option Nat
  | 3 => some 4
  | 4 => some 4
  | 5 => some 8
  | 6 => some 8
  | 7 => some 2
  | 8 => some 2
  | 9 => some 4
  | 10 => some 4
  | 11 => some 4
  | 12 => some 4
  | 15 => some 3
  | 16 => some 2
  | 17 => some 4
  | 18 => some 4
  | 19 => some 2
  | 20 => some 2
  | _ => none

/-- Whether a constant with the tag takes two slots. -/
def isWide (tag : Nat) : Bool := tag == long || tag == double

end Tag

/-- A constant: its tag and the bytes after the tag. -/
structure Constant where
  tag : Nat
  payload : Bytes
  deriving DecidableEq, Repr

namespace Constant

/-- The number in the two bytes at `offset` of the payload, if they are there. -/
def indexAt? (c : Constant) (offset : Nat) : Option Nat :=
  match Bytes.slice c.payload offset 2 with
  | [a, b] => some (Bytes.big [a, b])
  | _ => none

/-- The number in the two bytes at `offset`; constants of a pool that was read have them wherever
this library looks. -/
def indexAt (c : Constant) (offset : Nat) : Nat := (c.indexAt? offset).getD 0

/-- Reads one constant, to stand at `index`. -/
def decode (index : Nat) : Decoder Constant := do
  let tag ← Decoder.number 1
  if tag = Tag.utf8 then
    let length ← Decoder.number 2
    return ⟨tag, Bytes.ofBig 2 length ++ (← Decoder.bytes length)⟩
  else match Tag.fixedSize? tag with
    | some size => return ⟨tag, ← Decoder.bytes size⟩
    | none => Decoder.fail (.unknownTag tag index)

/-- The bytes of a constant. -/
def encode (c : Constant) : Bytes := c.tag.toUInt8 :: c.payload

end Constant

/-- The slots of a constant pool, the unused slot zero included. -/
structure ConstantPool where
  slots : List (Option Constant)
  deriving DecidableEq, Repr

namespace ConstantPool

/-- The number of slots. -/
def size (pool : ConstantPool) : Nat := pool.slots.length

/-- The constants with their indexes, in ascending order. -/
def constants (pool : ConstantPool) : List (Nat × Constant) :=
  pool.slots.zipIdx.filterMap fun (slot, index) => slot.map (index, ·)

/-- The constant at an index. -/
def get (pool : ConstantPool) (index : Int) : Except Error Constant :=
  if 0 < index then
    match pool.slots[index.toNat]? with
    | some (some c) => .ok c
    | _ => .error (.badIndex index)
  else .error (.badIndex index)

/-- The constant at an index, which must have the tag. -/
def getTagged (pool : ConstantPool) (index : Int) (tag : Nat) : Except Error Constant := do
  let c ← pool.get index
  if c.tag = tag then return c else throw (.tagMismatch index c.tag tag)

/-- The text at an index. -/
def utf8 (pool : ConstantPool) (index : Int) : Except Error Text := do
  let c ← pool.getTagged index Tag.utf8
  match Utf8.decodeModified (c.payload.drop 2) with
  | some t => return t
  | none => throw (.badUtf8 index)

/-- The name of the class at an index, in the form with slashes. -/
def className (pool : ConstantPool) (index : Int) : Except Error Text := do
  let c ← pool.getTagged index Tag.classRef
  pool.utf8 (c.indexAt 0)

/-- Reads constants up to `count` slots, where `slots` are the slots filled so far, last first. -/
def decodeSlots (count : Nat) (slots : List (Option Constant)) : Decoder (List (Option Constant)) :=
  if _h : slots.length < count then do
    let c ← Constant.decode slots.length
    if Tag.isWide c.tag then decodeSlots count (none :: some c :: slots)
    else decodeSlots count (some c :: slots)
  else return slots.reverse
termination_by count - slots.length

/-- Reads a constant pool: the number of its slots, and then its constants. -/
def decode : Decoder ConstantPool := do
  let count ← Decoder.number 2
  let slots ← decodeSlots count [none]
  if slots.length = count then return ⟨slots⟩ else Decoder.fail .slotMismatch

/-- The bytes of a constant pool, if the number of its slots fits. -/
def encode? (pool : ConstantPool) : Option Bytes := do
  let count ← Bytes.ofBig? 2 pool.size
  return count ++ pool.constants.flatMap fun (_, c) => c.encode

end ConstantPool

end Jarsmith.ClassFile

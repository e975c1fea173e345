import Jarsmith.ClassFile.Basic

/-!
# Reading class files

`ClassFile.decode` reads a class file from the beginning of a sequence of bytes; what follows the
attributes of the class is left unread.
-/

namespace Jarsmith.ClassFile

/-- Reads the index and the name of an attribute, and its bytes. -/
def Attribute.decode (pool : ConstantPool) : Decoder Attribute := do
  let nameIndex ← Decoder.number 2
  let name ← pool.utf8 nameIndex
  let length ← Decoder.number 4
  let info ← Decoder.bytes length
  return { name, nameIndex, info }

/-- Reads the fields of a code attribute from its bytes. -/
def Code.fieldsDecoder (pool : ConstantPool) (nameIndex : Int) : Decoder Code := do
  let maxStack ← Decoder.number 2
  let maxLocals ← Decoder.number 2
  let code ← Decoder.bytes (← Decoder.number 4)
  let rows ← Decoder.number 2
  let exceptionTable ← Decoder.bytes (rows * 8)
  let attributes ← Decoder.counted (Attribute.decode pool)
  return { nameIndex, maxStack, maxLocals, code, exceptionTable, attributes }

/-- The code that an attribute holds; its bytes must end with it. -/
def Code.ofAttribute (pool : ConstantPool) (a : Attribute) : Except Error Code := do
  let (code, cursor) ← (Code.fieldsDecoder pool a.nameIndex).run (.start a.info)
  if cursor.rest.isEmpty then return code
  else throw (.codeLength a.info.length cursor.offset)

/-- Reads an attribute of a field. -/
def MemberAttribute.decodeRaw (pool : ConstantPool) : Decoder MemberAttribute :=
  return .raw (← Attribute.decode pool)

/-- Reads an attribute of a method. -/
def MemberAttribute.decode (pool : ConstantPool) : Decoder MemberAttribute := do
  let contents ← Attribute.decode pool
  if contents.name = codeName then return .code (← Code.ofAttribute pool contents)
  else return .raw contents

/-- Reads a field or a method, whose attributes are read by `attributeDecoder`. -/
def Member.decode (pool : ConstantPool) (attributeDecoder : Decoder MemberAttribute) :
    Decoder Member := do
  let accessFlags ← Decoder.number 2
  let nameIndex ← Decoder.number 2
  let descriptorIndex ← Decoder.number 2
  let attributes ← Decoder.counted attributeDecoder
  let name ← pool.utf8 nameIndex
  let descriptor ← pool.utf8 descriptorIndex
  return { accessFlags, nameIndex, descriptorIndex, attributes, name, descriptor }

/-- Reads a class file. -/
def decoder : Decoder ClassFile := do
  let number ← Decoder.number 4
  if number ≠ magic then Decoder.fail (.badMagic number)
  let minorVersion ← Decoder.number 2
  let majorVersion ← Decoder.number 2
  let pool ← ConstantPool.decode
  let accessFlags ← Decoder.number 2
  let thisClass ← Decoder.number 2
  let superClass ← Decoder.number 2
  let interfaces ← Decoder.counted (Decoder.number 2)
  let fields ← Decoder.counted (Member.decode pool (MemberAttribute.decodeRaw pool))
  let methods ← Decoder.counted (Member.decode pool (MemberAttribute.decode pool))
  let attributes ← Decoder.counted (Attribute.decode pool)
  return {
    minorVersion, majorVersion, pool, accessFlags, thisClass, superClass,
    interfaces := interfaces.map Int.ofNat, fields, methods, attributes }

/-- The class file at the beginning of a sequence of bytes, and the bytes after it. -/
def decodeWithRest (bytes : Bytes) : Except Error (ClassFile × Bytes) :=
  (decoder.run (.start bytes)).map fun (c, cursor) => (c, cursor.rest)

/-- The class file at the beginning of a sequence of bytes. -/
def decode (bytes : Bytes) : Except Error ClassFile := (decodeWithRest bytes).map Prod.fst

end Jarsmith.ClassFile

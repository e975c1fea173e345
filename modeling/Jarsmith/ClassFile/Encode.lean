import Jarsmith.ClassFile.Basic

/-!
# Writing class files

Counts and lengths are computed from the parts, so a class file whose parts were changed is written
with the counts that it then needs. Writing fails only where a number does not fit its field.
-/

namespace Jarsmith.ClassFile

/-- The parts one after another, if each can be written. -/
def concat? (parts : List (Option Bytes)) : Option Bytes :=
  (parts.mapM id).map List.flatten

/-- A count of two bytes, and then the parts. -/
def counted? (parts : List (Option Bytes)) : Option Bytes :=
  concat? (Bytes.ofBig? 2 parts.length :: parts)

/-- The bytes of an attribute: the index of its name, its length, and its contents. -/
def attributeBytes? (nameIndex : Int) (info : Bytes) : Option Bytes :=
  concat? [Bytes.ofBig? 2 nameIndex, Bytes.ofBig? 4 info.length, some info]

/-- The bytes of an attribute. -/
def Attribute.encode? (a : Attribute) : Option Bytes := attributeBytes? a.nameIndex a.info

/-- The contents of a code attribute. The exception table counts rows of eight bytes. -/
def Code.info? (c : Code) : Option Bytes :=
  concat? [
    Bytes.ofBig? 2 c.maxStack, Bytes.ofBig? 2 c.maxLocals,
    Bytes.ofBig? 4 c.code.length, some c.code,
    Bytes.ofBig? 2 (c.exceptionTable.length / 8), some c.exceptionTable,
    counted? (c.attributes.map Attribute.encode?)]

/-- The bytes of a code attribute. -/
def Code.encode? (c : Code) : Option Bytes := c.info?.bind (attributeBytes? c.nameIndex)

/-- The bytes of an attribute of a member. -/
def MemberAttribute.encode? : MemberAttribute → Option Bytes
  | .raw a => a.encode?
  | .code c => c.encode?

/-- The bytes of a field or a method. -/
def Member.encode? (m : Member) : Option Bytes :=
  concat? [
    Bytes.ofBig? 2 m.accessFlags, Bytes.ofBig? 2 m.nameIndex, Bytes.ofBig? 2 m.descriptorIndex,
    counted? (m.attributes.map MemberAttribute.encode?)]

/-- The bytes of a class file; `none` if a number does not fit its field. -/
def encode? (c : ClassFile) : Option Bytes :=
  concat? [
    Bytes.ofBig? 4 magic, Bytes.ofBig? 2 c.minorVersion, Bytes.ofBig? 2 c.majorVersion,
    c.pool.encode?,
    Bytes.ofBig? 2 c.accessFlags, Bytes.ofBig? 2 c.thisClass, Bytes.ofBig? 2 c.superClass,
    counted? (c.interfaces.map (Bytes.ofBig? 2)),
    counted? (c.fields.map Member.encode?),
    counted? (c.methods.map Member.encode?),
    counted? (c.attributes.map Attribute.encode?)]

end Jarsmith.ClassFile

import Jarsmith.ClassFile.Constant

/-!
# Class files

The parts of a class file in the order in which they are written. Attributes are kept as raw bytes,
except the code attributes of methods, whose own attributes can be told apart. The numeric fields
are integers without a bound, since a transformation may put any number there; writing refuses those
that do not fit.
-/

namespace Jarsmith

namespace ClassFile

/-- A named sequence of bytes attached to a class, a member or a piece of code. -/
structure Attribute where
  name : Text
  nameIndex : Int
  info : Bytes
  deriving DecidableEq, Repr

/-- The code of a method, with its exception table and its own attributes. -/
structure Code where
  nameIndex : Int
  maxStack : Int
  maxLocals : Int
  code : Bytes
  exceptionTable : Bytes
  attributes : List Attribute
  deriving DecidableEq, Repr

/-- The name of the attribute that holds the code of a method. -/
def codeName : Text := "Code"

/-- An attribute of a member. -/
inductive MemberAttribute where
  | raw (contents : Attribute)
  | code (contents : Code)
  deriving DecidableEq, Repr

/-- A field or a method. The texts are what the pool had at the two indexes when it was read. -/
structure Member where
  accessFlags : Int
  nameIndex : Int
  descriptorIndex : Int
  attributes : List MemberAttribute
  name : Text
  descriptor : Text
  deriving DecidableEq, Repr

/-- The code of a member: the first of its code attributes. -/
def Member.code? (m : Member) : Option Code :=
  m.attributes.findSome? fun
    | .code c => some c
    | .raw _ => none

/-- The first four bytes of every class file. -/
def magic : Nat := 0xCAFEBABE

end ClassFile

open ClassFile in
/-- A class file. -/
structure ClassFile where
  minorVersion : Int
  majorVersion : Int
  pool : ConstantPool
  accessFlags : Int
  thisClass : Int
  superClass : Int
  interfaces : List Int
  fields : List Member
  methods : List Member
  attributes : List Attribute
  deriving DecidableEq, Repr

end Jarsmith

import Jarsmith.ClassFile.Basic

/-!
# Debug information

Line numbers and local variables are attributes of the code of a method. Without them a class runs
as before. Only the first code attribute of a method counts as its code.
-/

namespace Jarsmith.ClassFile

/-- The names of the attributes that hold debug information. -/
def debugNames : List Text := ["LineNumberTable", "LocalVariableTable", "LocalVariableTypeTable"]

/-- The code without debug information. -/
def Code.removeDebugInformation (c : Code) : Code :=
  { c with attributes := c.attributes.filter fun a => a.name ∉ debugNames }

/-- Changes the first code attribute. -/
def mapFirstCode (f : Code → Code) : List MemberAttribute → List MemberAttribute
  | [] => []
  | .code c :: rest => .code (f c) :: rest
  | .raw a :: rest => .raw a :: mapFirstCode f rest

/-- The method without debug information. -/
def Member.removeDebugInformation (m : Member) : Member :=
  { m with attributes := mapFirstCode Code.removeDebugInformation m.attributes }

/-- The class without debug information. -/
def removeDebugInformation (c : ClassFile) : ClassFile :=
  { c with methods := c.methods.map Member.removeDebugInformation }

end Jarsmith.ClassFile

import Jarsmith.Text.Blank
import Jarsmith.ClassFile.Basic

/-!
# The classes that a class file names

A class file names other classes as class constants, and inside the texts of its pool: in the
descriptors and signatures of fields and methods, of annotations and the like. There an object type
stands between the letter `L` and a semicolon, or an opening angle bracket if type arguments follow.
A text that only string literals use is no type and is left out.
-/

namespace Jarsmith.ClassFile

/-- The name of a class with dots, from its name with slashes. -/
def dotted (name : Text) : Text := name.replace 0x2F 0x2E

/-- What may stand in the name of an object type: anything but the marks of the grammar,
`;<>[]().:`, and blanks. -/
def isNamePoint (c : CodePoint) : Bool :=
  !(c == 0x3B || c == 0x3C || c == 0x3E || c == 0x5B || c == 0x5D || c == 0x28 || c == 0x29 ||
    c == 0x2E || c == 0x3A || c.isBlank)

/-- The classes named as object types in a text, left to right, with dots. -/
def typeNames : Text → List Text
  | [] => []
  | c :: t =>
    if c = 0x4C then
      match t.takeWhile isNamePoint, h : t.dropWhile isNamePoint with
      | name@(_ :: _), mark :: rest =>
        have : rest.length < t.length := by
          have := (List.dropWhile_sublist isNamePoint (l := t)).length_le
          rw [h] at this
          simp at this
          omega
        if mark = 0x3B ∨ mark = 0x3C then dotted name :: typeNames rest else typeNames t
      | _, _ => typeNames t
    else typeNames t
termination_by t => t.length

/-- The classes that a class constant with the name `name` stands for: the class itself, or the
element class of an array. -/
def constantNames (name : Text) : List Text :=
  if name.head? = some 0x5B then typeNames name else [dotted name]

/-- The indexes of the texts that string literals use. -/
def literalIndexes (pool : ConstantPool) : List Nat :=
  pool.constants.filterMap fun (_, c) => if c.tag = Tag.string then some (c.indexAt 0) else none

/-- The indexes of the texts that the constants of a pool use as descriptors. -/
def descriptorIndexes (pool : ConstantPool) : List Nat :=
  pool.constants.filterMap fun (_, c) =>
    if c.tag = Tag.nameAndType then some (c.indexAt 2)
    else if c.tag = Tag.methodType then some (c.indexAt 0)
    else none

/-- Whether the text at an index may hold types: a string literal does not use it, or a
descriptor does. -/
def isScanned (c : ClassFile) (index : Nat) : Bool :=
  !(literalIndexes c.pool).contains index ||
  (descriptorIndexes c.pool).contains index ||
  (c.fields ++ c.methods).any (·.descriptorIndex == index)

/-- The classes that the class constants of a pool stand for. -/
def classConstantNames (pool : ConstantPool) : Except Error (List Text) := do
  let names ← pool.constants.mapM fun (_, c) => do
    if c.tag = Tag.classRef then return constantNames (← pool.utf8 (c.indexAt 0)) else return []
  return names.flatten

/-- The classes named in the texts of the pool that may hold types. -/
def textNames (c : ClassFile) : Except Error (List Text) := do
  let names ← c.pool.constants.mapM fun (index, constant) => do
    if constant.tag = Tag.utf8 && isScanned c index then return typeNames (← c.pool.utf8 index)
    else return []
  return names.flatten

/-- The name of the class itself, with dots. -/
def name (c : ClassFile) : Except Error Text := (c.pool.className c.thisClass).map dotted

/-- The other classes that a class file names, each once. -/
def references (c : ClassFile) : Except Error (List Text) := do
  let constants ← classConstantNames c.pool
  let texts ← textNames c
  let self ← c.name
  return (Text.unique (constants ++ texts)).filter (· ≠ self)

end Jarsmith.ClassFile

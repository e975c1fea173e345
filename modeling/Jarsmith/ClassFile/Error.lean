import Jarsmith.Text.Utf8

/-!
# What can be wrong with a class file
-/

namespace Jarsmith.ClassFile

/-- The reasons why bytes are not a class file, or why a constant cannot be looked up in one. -/
inductive Error where
  /-- The bytes end at `offset`, where `wanted` are needed and `left` remain. -/
  | truncated (offset wanted left : Nat)
  /-- The file begins with another number than the one of class files. -/
  | badMagic (magic : Nat)
  /-- A constant has a tag that no version of the format knows. -/
  | unknownTag (tag index : Nat)
  /-- The last constant takes two slots where one is left, or no slot is declared at all. -/
  | slotMismatch
  /-- No constant stands at the index. -/
  | badIndex (index : Int)
  /-- The constant at the index has another tag than the one asked for. -/
  | tagMismatch (index : Int) (found expected : Nat)
  /-- The bytes at the index are not in modified UTF-8. -/
  | badUtf8 (index : Int)
  /-- A code attribute ends before its declared length. -/
  | codeLength (declared actual : Nat)
  deriving DecidableEq, Repr

/-- The text of an error. -/
def Error.message : Error → Text
  | .truncated offset wanted left =>
    ("数据被截断: 偏移 " : Text) ++ Text.ofNat offset ++ (" 处需要 " : Text) ++ Text.ofNat wanted ++
      (" 字节，剩余 " : Text) ++ Text.ofNat left ++ (" 字节" : Text)
  | .badMagic magic => ("无效的类文件魔数: " : Text) ++ Text.hex 8 magic
  | .unknownTag tag index =>
    ("未知的常量池标记 " : Text) ++ Text.ofNat tag ++ ("（索引 " : Text) ++ Text.ofNat index ++
      ("）" : Text)
  | .slotMismatch => "常量池长度与 Long/Double 槽位不一致"
  | .badIndex index => ("无效的常量池索引 " : Text) ++ Text.ofInt index
  | .tagMismatch index found expected =>
    ("常量池索引 " : Text) ++ Text.ofInt index ++ (" 的类型为 " : Text) ++ Text.ofNat found ++
      ("，期望 " : Text) ++ Text.ofNat expected
  | .badUtf8 index =>
    ("常量池索引 " : Text) ++ Text.ofInt index ++ (" 不是合法的 UTF-8: " : Text) ++
      Utf8.invalidMessage
  | .codeLength declared actual =>
    ("Code 属性长度不匹配: 声明 " : Text) ++ Text.ofNat declared ++ ("，实际 " : Text) ++
      Text.ofNat actual

end Jarsmith.ClassFile

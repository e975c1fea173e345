import Jarsmith.Decimal.Rounding

/-!
# Sizes for readers

A number of bytes is shown in the largest unit of which it has at least one, from bytes to
terabytes, with one place after the point. The size is first taken as a floating point number, so a
size that is beyond those has no text.
-/

namespace Jarsmith.Text

/-- The units above the byte, each 1024 times the one before. -/
def sizeUnits : List Text := ["KB", "MB", "GB", "TB"]

/-- One place after the point, of `num / den`. -/
def onePlace (num den : Nat) : Text :=
  let tenths := roundDiv (num * 10) den
  ofNat (tenths / 10) ++ 0x2E :: ofNat (tenths % 10)

/-- The size `bytes / den` in the first of `units`, or in a later one if it has 1024 of it. -/
def sizeIn (bytes den : Nat) : (units : List Text) → Text
  | [] => []
  | [unit] => onePlace bytes den ++ 0x20 :: unit
  | unit :: units =>
    if bytes < 1024 * den then onePlace bytes den ++ 0x20 :: unit
    else sizeIn bytes (1024 * den) units

/-- The text of a size; `none` if it is beyond the floating point numbers. -/
def ofSize? (size : Int) : Option Text :=
  (Binary64.ofInt size).toInt?.map fun size =>
    if size < 1024 then ofInt size ++ (" B" : Text) else sizeIn size.toNat 1024 sizeUnits

/-- The text of a size that a file can have. -/
def ofSize (size : Nat) : Text := (ofSize? size).getD (ofNat size ++ (" B" : Text))

/-- What is said of a size that is beyond the floating point numbers. -/
def sizeOverflowMessage : Text := "int too large to convert to float"

end Jarsmith.Text

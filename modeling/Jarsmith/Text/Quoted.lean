import Jarsmith.Text.Printable

/-!
# Quoted texts

How texts and bytes are shown inside messages: between single quotes, or between double quotes if
the text has a single quote and no double one. The quote in use and the backslash are escaped, and
so is everything unprintable: the three common controls by a letter, the rest by number.
-/

namespace Jarsmith.Text

/-- The quote around a text: single, unless that alone would need escapes. -/
def quoteFor (t : Text) : CodePoint := if 0x27 ∈ t ∧ 0x22 ∉ t then 0x22 else 0x27

/-- The escape of a code point by number, in the shortest of the three widths. -/
def numberEscape (c : CodePoint) : Text :=
  if c < 0x100 then 0x5C :: 0x78 :: hex 2 c
  else if c < 0x10000 then 0x5C :: 0x75 :: hex 4 c
  else 0x5C :: 0x55 :: hex 8 c

/-- A code point inside the quotes `quote`, where `plain` tells what is shown as itself. -/
def quotedPoint (plain : CodePoint → Bool) (quote c : CodePoint) : Text :=
  if c = quote ∨ c = 0x5C then [0x5C, c]
  else if c = 0x0A then [0x5C, 0x6E]
  else if c = 0x0D then [0x5C, 0x72]
  else if c = 0x09 then [0x5C, 0x74]
  else if plain c then [c]
  else numberEscape c

/-- A text between quotes. -/
def quoted (t : Text) : Text :=
  let quote := quoteFor t
  quote :: t.flatMap (quotedPoint CodePoint.isPrintable quote) ++ [quote]

/-- Bytes between quotes, after the letter `b`: printable ASCII is shown as itself. -/
def quotedBytes (bytes : List UInt8) : Text :=
  let t := bytes.map UInt8.toNat
  let quote := quoteFor t
  0x62 :: quote :: t.flatMap (quotedPoint (fun c => 0x20 ≤ c && c ≤ 0x7E) quote) ++ [quote]

end Jarsmith.Text

import Jarsmith.Text.Basic

/-!
# UTF-8, standard and modified

The standard form holds every code point but the surrogates, in one to four bytes. The modified
form of class files holds the 16-bit units of a text instead: NUL is written in two bytes, and a
code point beyond U+FFFF as the two surrogates of its pair, three bytes each. Reading the modified
form never joins a pair, and also takes what the standard form would have written.

`decode` and `encode?` are the standard form, `decodeModified` and `encodeUnits` the modified one.
-/

namespace Jarsmith.Utf8

/-- Which byte sequences count as a character. -/
structure Form where
  /-- `C0 80` is NUL. -/
  longNul : Bool
  /-- Surrogates may be written in three bytes. -/
  surrogates : Bool
  deriving DecidableEq

/-- The form that other programs mean by UTF-8. -/
def Form.standard : Form := ⟨false, false⟩

/-- The form of the constant pool of a class file. -/
def Form.modified : Form := ⟨true, true⟩

/-- A continuation byte: `10` and six bits. -/
def isTail (b : UInt8) : Bool := 0x80 ≤ b && b ≤ 0xBF

/-- The second byte that may follow the leading byte `a` of a character of three bytes: no longer
form than needed, and no surrogate unless the form has them. -/
def isSecondOfThree (form : Form) (a b : UInt8) : Bool :=
  if a = 0xE0 then 0xA0 ≤ b && b ≤ 0xBF
  else if a = 0xED && !form.surrogates then 0x80 ≤ b && b ≤ 0x9F
  else isTail b

/-- The second byte that may follow the leading byte `a` of a character of four bytes: no longer
form than needed, and nothing beyond U+10FFFF. -/
def isSecondOfFour (a b : UInt8) : Bool :=
  if a = 0xF0 then 0x90 ≤ b && b ≤ 0xBF
  else if a = 0xF4 then 0x80 ≤ b && b ≤ 0x8F
  else isTail b

/-- The code point of a character of two bytes. -/
def pointOfTwo (a b : UInt8) : CodePoint := (a.toNat - 0xC0) * 0x40 + (b.toNat - 0x80)

/-- The code point of a character of three bytes. -/
def pointOfThree (a b c : UInt8) : CodePoint :=
  (a.toNat - 0xE0) * 0x1000 + (b.toNat - 0x80) * 0x40 + (c.toNat - 0x80)

/-- The code point of a character of four bytes. -/
def pointOfFour (a b c d : UInt8) : CodePoint :=
  (a.toNat - 0xF0) * 0x40000 + (b.toNat - 0x80) * 0x1000 + (c.toNat - 0x80) * 0x40 +
    (d.toNat - 0x80)

/-- The code points that the bytes write in `form`; `none` if they are not written so. -/
def decodeIn (form : Form) : List UInt8 → Option Text
  | [] => some []
  | a :: rest =>
    if a ≤ 0x7F then (decodeIn form rest).map (a.toNat :: ·)
    else match rest with
      | [] => none
      | b :: rest =>
        if a = 0xC0 && b = 0x80 && form.longNul then (decodeIn form rest).map (0 :: ·)
        else if 0xC2 ≤ a && a ≤ 0xDF then
          if isTail b then (decodeIn form rest).map (pointOfTwo a b :: ·) else none
        else match rest with
          | [] => none
          | c :: rest =>
            if 0xE0 ≤ a && a ≤ 0xEF then
              if isSecondOfThree form a b && isTail c then
                (decodeIn form rest).map (pointOfThree a b c :: ·)
              else none
            else match rest with
              | [] => none
              | d :: rest =>
                if 0xF0 ≤ a && a ≤ 0xF4 && isSecondOfFour a b && isTail c && isTail d then
                  (decodeIn form rest).map (pointOfFour a b c d :: ·)
                else none

/-- Reads the standard form. -/
def decode (bytes : List UInt8) : Option Text := decodeIn .standard bytes

/-- Reads the modified form. -/
def decodeModified (bytes : List UInt8) : Option Text := decodeIn .modified bytes

/-- The standard form of a code point, which is neither a surrogate nor beyond U+10FFFF. -/
def encodePoint (c : CodePoint) : List UInt8 :=
  if c < 0x80 then [c.toUInt8]
  else if c < 0x800 then [(0xC0 + c / 0x40).toUInt8, (0x80 + c % 0x40).toUInt8]
  else if c < 0x10000 then
    [(0xE0 + c / 0x1000).toUInt8, (0x80 + c / 0x40 % 0x40).toUInt8, (0x80 + c % 0x40).toUInt8]
  else
    [(0xF0 + c / 0x40000).toUInt8, (0x80 + c / 0x1000 % 0x40).toUInt8,
      (0x80 + c / 0x40 % 0x40).toUInt8, (0x80 + c % 0x40).toUInt8]

/-- The standard form of a text; a text with a surrogate has none. -/
def encode? (t : Text) : Option (List UInt8) :=
  if t.any CodePoint.isSurrogate then none else some (t.flatMap encodePoint)

/-- The modified form of a 16-bit unit: NUL takes two bytes, and a surrogate three. -/
def encodeUnit (u : CodePoint) : List UInt8 := if u = 0 then [0xC0, 0x80] else encodePoint u

/-- The modified form of a sequence of 16-bit units. -/
def encodeUnits (us : List CodePoint) : List UInt8 := us.flatMap encodeUnit

/-- The first run of surrogates in a text: how many code points stand before it, and the run. -/
def firstSurrogates (t : Text) : Nat × Text :=
  let before := t.takeWhile fun c => !c.isSurrogate
  (before.length, (t.drop before.length).takeWhile CodePoint.isSurrogate)

/-- What is said of a text that has no standard form. -/
def unencodableMessage (t : Text) : Text :=
  let (place, run) := firstSurrogates t
  let subject := match run with
    | [c] =>
      ("character '\\u" : Text) ++ Text.hex 4 c ++ ("' in position " : Text) ++ Text.ofNat place
    | _ => ("characters in position " : Text) ++ Text.ofNat place ++ ("-" : Text) ++
      Text.ofNat (place + run.length - 1)
  ("'utf-8' codec can't encode " : Text) ++ subject ++ (": surrogates not allowed" : Text)

/-- What is said of bytes that are not written in UTF-8. -/
def invalidMessage : Text := "'utf-8' codec can't decode the bytes"

end Jarsmith.Utf8

import Jarsmith.Text.Blank

/-!
# Marked texts

A tag between square brackets changes the style of the text after it until a closing tag takes the
change back. A tag begins with a lower-case letter or with one of `#`, `/` and `@`; everything else
between brackets is text. A backslash before a tag makes it text too. A closing tag names the tag
that it closes, or closes the last one; a tag that has nothing to close is an error.

`plain?` gives the text without its tags.
-/

namespace Jarsmith.Markup

/-- A piece of a marked text. -/
inductive Piece where
  | text (t : Text)
  | opening (name : Text)
  | closing (name : Text)
  deriving DecidableEq, Repr

/-- A tag may begin with the code point. -/
def startsTag (c : CodePoint) : Bool :=
  (0x61 ≤ c && c ≤ 0x7A) || c == 0x23 || c == 0x2F || c == 0x40

/-- The tag that stands at the beginning of a text, after its bracket, and the text after it. -/
def cutTag? (t : Text) : Option (Text × Text) :=
  match t with
  | c :: _ =>
    if startsTag c then
      match Text.cutFirst? 0x5D t with
      | some (tag, rest) => if 0x5B ∈ tag then none else some (tag, rest)
      | none => none
    else none
  | [] => none

/-- The piece that a tag is; what follows an equals sign does not belong to its name. -/
def pieceOf (tag : Text) : Piece :=
  let name := tag.takeWhile (· ≠ 0x3D)
  match name with
  | 0x2F :: name => .closing (Text.trimBlanks name).toLower
  | name => .opening (Text.trimBlanks name).toLower

/-- The pieces of a marked text; `fuel` bounds their number, and `slashes` counts the backslashes
just before the text. -/
def pieces : (fuel : Nat) → (slashes : Nat) → Text → List Piece
  | 0, _, _ => []
  | _ + 1, slashes, [] => [.text (List.replicate slashes 0x5C)]
  | fuel + 1, slashes, c :: t =>
    if c = 0x5C then pieces fuel (slashes + 1) t
    else
      match (if c = 0x5B then cutTag? t else none) with
      | none => .text (List.replicate slashes 0x5C ++ [c]) :: pieces fuel 0 t
      | some (tag, rest) =>
        let piece := if slashes % 2 = 0 then pieceOf tag else .text (0x5B :: tag ++ [0x5D])
        .text (List.replicate (slashes / 2) 0x5C) :: piece :: pieces fuel 0 rest

/-- The text of pieces, where `opened` are the tags that are not closed, the last one first. -/
def plainOf? (opened : List Text) : List Piece → Option Text
  | [] => some []
  | .text t :: rest => (plainOf? opened rest).map (t ++ ·)
  | .opening name :: rest => plainOf? (name :: opened) rest
  | .closing name :: rest =>
    if name.isEmpty then
      if opened.isEmpty then none else plainOf? opened.tail rest
    else if name ∈ opened then plainOf? (opened.erase name) rest
    else none

/-- The text without its tags; `none` if a tag has nothing to close. -/
def plain? (t : Text) : Option Text := plainOf? [] (pieces (t.length + 1) 0 t)

end Jarsmith.Markup

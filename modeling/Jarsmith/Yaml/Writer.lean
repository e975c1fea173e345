import Jarsmith.Document.Basic
import Jarsmith.Yaml.Scalar
import Jarsmith.Yaml.Token.Cursor

/-!
# Writing YAML

A document is written in blocks, with the keys of every mapping in ascending order, and sequences
that are not indented below their keys. A text is plain if it is read back as itself; otherwise it
stands between single quotes, or, if it has a break or something unprintable, between double quotes
with escapes. Lines are never folded.
-/

namespace Jarsmith.Yaml

/-- What may stand in a text that is not between double quotes. -/
def isWritable (c : CodePoint) : Bool :=
  (0x20 ≤ c && c ≤ 0x7E) || (0xA0 ≤ c && isAllowed c && c != byteOrderMark)

/-- A space, tab, break or NUL: what makes a colon or a number sign next to it a mark. -/
def isSeparator (c : CodePoint) : Bool := c == 0 || isGap c || isBreak c

/-- The marks with which no plain text begins. -/
def leadingMarks : Text := "#,[]\x7b\x7d&*!|>'\"%@\x60"

/-- A mark of a comment or of a value stands in the text, where `before` precedes it. -/
def hasInnerMark : (before : CodePoint) → Text → Bool
  | _, [] => false
  | before, c :: t =>
    (c == 0x3A && isSeparator (t.headD 0)) || (c == 0x23 && isSeparator before) || hasInnerMark c t

/-- The text begins with a mark. -/
def hasLeadingMark (t : Text) : Bool :=
  match t with
  | [] => false
  | c :: rest =>
    leadingMarks.elem c ||
      ((c == 0x3F || c == 0x3A || c == 0x2D) && isSeparator (rest.headD 0)) ||
      [0x2D, 0x2D, 0x2D].isPrefixOf t || [0x2E, 0x2E, 0x2E].isPrefixOf t

/-- The text is written between double quotes. -/
def needsEscapes (t : Text) : Bool := t.any fun c => !isWritable c || isBreak c

/-- The text is written as it is. -/
def isPlain (t : Text) : Bool :=
  plainTag .standard t == .text && !hasLeadingMark t && !hasInnerMark (t.headD 0) (t.drop 1) &&
    t.head? != some 0x20 && t.getLast? != some 0x20

/-- The letters of escapes. -/
def escapeLetters : List (CodePoint × CodePoint) :=
  [(0x00, 0x30), (0x07, 0x61), (0x08, 0x62), (0x09, 0x74), (0x0A, 0x6E), (0x0B, 0x76), (0x0C, 0x66),
    (0x0D, 0x72), (0x1B, 0x65), (0x22, 0x22), (0x5C, 0x5C), (0x85, 0x4E), (0xA0, 0x5F),
    (0x2028, 0x4C), (0x2029, 0x50)]

/-- A number in hexadecimal digits with capital letters. -/
def capitalHex (width n : Nat) : Text :=
  (Text.hex width n).map fun c => if 0x61 ≤ c ∧ c ≤ 0x66 then c - 0x20 else c

/-- A code point between double quotes. -/
def escapedPoint (c : CodePoint) : Text :=
  if isWritable c && !isBreak c && c != 0x22 && c != 0x5C && c ≤ 0xFFFF then [c]
  else match escapeLetters.lookup c with
    | some letter => [0x5C, letter]
    | none =>
      if c ≤ 0xFF then 0x5C :: 0x78 :: capitalHex 2 c
      else if c ≤ 0xFFFF then 0x5C :: 0x75 :: capitalHex 4 c
      else 0x5C :: 0x55 :: capitalHex 8 c

/-- A text as it is written. -/
def writtenText (t : Text) : Text :=
  if needsEscapes t then 0x22 :: t.flatMap escapedPoint ++ [0x22]
  else if isPlain t then t
  else 0x27 :: t.flatMap (fun c => if c = 0x27 then [c, c] else [c]) ++ [0x27]

/-- A value that takes no lines of its own. -/
def writtenScalar : Document → Text
  | .null => "null"
  | .bool b => if b then "true" else "false"
  | .text t => writtenText t
  | .list _ | .tuple _ => "[]"
  | .mapping _ | .set _ => "\x7b\x7d"
  | d => d.plain

/-- Puts a mark before the first line and indents the others. -/
def hang (mark : Text) (ls : List Text) : List Text :=
  match ls with
  | [] => []
  | l :: ls => (mark ++ l) :: ls.map (mark.map (fun _ => 0x20) ++ ·)

/-- The lines of an entry of a mapping, of which the value has the given lines. -/
def entryLines (key : Text) (value : Document) (ls : List Text) : List Text :=
  let start := key ++ [0x3A]
  match value with
  | .list (_ :: _) => start :: ls
  | .mapping (_ :: _) => start :: ls.map ([0x20, 0x20] ++ ·)
  | _ => hang (start ++ [0x20]) ls

mutual

/-- The lines of a value. -/
def blockLines : Document → List Text
  | .list (item :: items) => itemLines (item :: items)
  | .mapping (entry :: entries) =>
    ((entryBlocks (entry :: entries)).mergeSort fun a b => Text.le a.1 b.1).flatMap Prod.snd
  | d => [writtenScalar d]

/-- The lines of the items of a sequence. -/
def itemLines : List Document → List Text
  | [] => []
  | item :: items => hang [0x2D, 0x20] (blockLines item) ++ itemLines items

/-- The lines of the entries of a mapping, each with its key. -/
def entryBlocks : List (Document × Document) → List (Text × List Text)
  | [] => []
  | (key, value) :: entries =>
    (key.plain, entryLines (writtenScalar key) value (blockLines value)) :: entryBlocks entries

end

/-- A document as YAML. -/
def write (d : Document) : Text := (blockLines d).flatMap (· ++ [0x0A])

end Jarsmith.Yaml

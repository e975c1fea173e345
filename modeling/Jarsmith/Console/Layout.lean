import Jarsmith.Text.Blank
import Jarsmith.Text.Width

/-!
# Texts on a console

A console leaves out the controls that would move its cursor, fills tabs up to the next multiple of
eight cells, and breaks lines that are too wide, between words as long as the words fit.
-/

namespace Jarsmith

namespace CodePoint

/-- The controls that a console leaves out: bell, backspace, vertical tab, form feed and carriage
return. -/
def movesCursor (c : CodePoint) : Bool := c ∈ [0x07, 0x08, 0x0B, 0x0C, 0x0D]

end CodePoint

namespace Text

/-- The cells between two places to which tabs lead. -/
abbrev tabSize : Nat := 8

/-- A line with spaces in the stead of its tabs, where `column` cells stand before it. -/
def expandTabs (column : Nat) : Text → Text
  | [] => []
  | c :: t =>
    if c = 0x09 then
      let width := tabSize - column % tabSize
      List.replicate width 0x20 ++ expandTabs (column + width) t
    else c :: expandTabs (column + c.cells) t

/-- The words of a line: a word begins with the blanks before it if it is the first one, and goes on
to the beginning of the next word. `word` is the reversed beginning of the word at hand, and
`inWord` tells whether that has more than blanks. -/
def wordsFrom (word : Text) (inWord : Bool) : Text → List Text
  | [] => if inWord then [word.reverse] else []
  | c :: t =>
    let startsWord := inWord && !c.isBlank && word.head?.any CodePoint.isBlank
    if startsWord then word.reverse :: wordsFrom [c] true t
    else wordsFrom (c :: word) (inWord || !c.isBlank) t

/-- Pieces of at most `width` cells, as long as they can be made. `piece` is the reversed beginning
of the piece at hand, and `used` its cells. -/
def chopFrom (width : Nat) (piece : Text) (used : Nat) : Text → List Text
  | [] => [piece.reverse]
  | c :: t =>
    if used + c.cells > width then piece.reverse :: chopFrom width [c] c.cells t
    else chopFrom width (c :: piece) (used + c.cells) t

/-- Puts words into lines of at most `width` cells, blanks at their ends not counted. A word that is
wider than a line is chopped. `line` is the line at hand, and `used` its cells. -/
def fillLines (width : Nat) (line : Text) (used : Nat) : List Text → List Text
  | [] => [line]
  | word :: words =>
    let size := (trimEnd CodePoint.isBlank word).cells
    if size ≤ width - used then fillLines width (line ++ word) (used + word.cells) words
    else if size > width then
      let pieces := chopFrom width [] 0 word
      let before := if line.isEmpty then [] else [line]
      let last := pieces.getLast?.getD []
      before ++ pieces.dropLast ++ fillLines width last last.cells words
    else if used = 0 then fillLines width (line ++ word) (used + word.cells) words
    else line :: fillLines width word word.cells words

/-- A line without the blanks that stand beyond its width. -/
def trimBeyond (width : Nat) (t : Text) : Text :=
  let excess := t.cells - width
  let blanks := t.length - (trimEnd CodePoint.isBlank t).length
  t.take (t.length - min excess blanks)

/-- A line broken into lines of at most `width` cells. -/
def breakLine (width : Nat) (line : Text) : List Text :=
  if line.cells ≤ width then [line]
  else (fillLines width [] 0 (wordsFrom [] false line)).map (trimBeyond width)

/-- The lines of a text as a console of the given width shows them. -/
def layOut (width : Nat) (t : Text) : List Text :=
  ((t.filter fun c => !c.movesCursor).splitOn 0x0A).flatMap fun line =>
    breakLine width (expandTabs 0 line)

end Text

end Jarsmith

import Jarsmith.Text.Basic

/-!
# Blank code points and line ends

Three classes, each used where its rule belongs: the Unicode property White_Space, the wider class
of blanks that also takes the four information separators, and the code points that end a line.
-/

namespace Jarsmith

namespace CodePoint

/-- The Unicode property White_Space. -/
def isWhiteSpace (c : CodePoint) : Bool :=
  (0x09 ≤ c && c ≤ 0x0D) || c == 0x20 || c == 0x85 || c == 0xA0 || c == 0x1680 ||
  (0x2000 ≤ c && c ≤ 0x200A) || c == 0x2028 || c == 0x2029 || c == 0x202F || c == 0x205F ||
  c == 0x3000

/-- White space, and the information separators U+001C to U+001F. -/
def isBlank (c : CodePoint) : Bool := isWhiteSpace c || (0x1C ≤ c && c ≤ 0x1F)

/-- The code points that end a line: line feed, vertical tab, form feed, carriage return, the
separators U+001C to U+001E, next line, and the line and paragraph separators. -/
def isLineEnd (c : CodePoint) : Bool :=
  (0x0A ≤ c && c ≤ 0x0D) || (0x1C ≤ c && c ≤ 0x1E) || c == 0x85 || c == 0x2028 || c == 0x2029

end CodePoint

namespace Text

/-- A text without the blanks at its ends. -/
def trimBlanks (t : Text) : Text := trim CodePoint.isBlank t

/-- A text without the white space at its ends. -/
def trimWhiteSpace (t : Text) : Text := trim CodePoint.isWhiteSpace t

/-- The lines of a text, where `line` is the reversed beginning of the line at hand. A carriage
return and a line feed after it end one line; a last line needs no end, and an empty one does not
count. -/
def linesFrom (line : Text) : Text → List Text
  | [] => if line.isEmpty then [] else [line.reverse]
  | 0x0D :: 0x0A :: t => line.reverse :: linesFrom [] t
  | c :: t => if c.isLineEnd then line.reverse :: linesFrom [] t else linesFrom (c :: line) t

/-- The lines of a text without their ends. -/
def lines (t : Text) : List Text := linesFrom [] t

/-- A text whose lines end in line feeds: carriage returns are made into them, together with a line
feed that follows. -/
def withLineFeeds : Text → Text
  | [] => []
  | 0x0D :: 0x0A :: t => 0x0A :: withLineFeeds t
  | c :: t => (if c = 0x0D then 0x0A else c) :: withLineFeeds t

end Text

end Jarsmith

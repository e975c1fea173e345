import Jarsmith.Yaml.Token

/-!
# Places in a YAML text

A cursor is a place in a text: what is left of it, and the line and the column. The scanning of
tokens is a computation on a cursor. The end of the text reads as a NUL, which no YAML text holds.
-/

namespace Jarsmith.Yaml

/-- A place in a text. -/
structure Cursor where
  rest : Text
  index : Nat
  line : Nat
  column : Nat
  deriving Repr

/-- A computation that reads on from a cursor. -/
abbrev Scan := StateT Cursor (Except Error)

/-- The mark at the beginning of a text that tells the order of its bytes. -/
abbrev byteOrderMark : CodePoint := 0xFEFF

/-- A line feed, carriage return, next line, or line or paragraph separator. -/
def isBreak (c : CodePoint) : Bool :=
  c == 0x0A || c == 0x0D || c == 0x85 || c == 0x2028 || c == 0x2029

/-- The end of the text, or a break other than the two separators. -/
def isEnd (c : CodePoint) : Bool := c == 0 || c == 0x0A || c == 0x0D || c == 0x85

/-- A space or a tab. -/
def isGap (c : CodePoint) : Bool := c == 0x20 || c == 0x09

/-- What must follow a mark for it to count as one: the end, a break, a space or a tab. -/
def isEndOrGap (c : CodePoint) : Bool := isEnd c || isGap c

/-- What must follow a tag or a directive: the end, a break or a space. -/
def isEndBreakOrSpace (c : CodePoint) : Bool := c == 0 || isBreak c || c == 0x20

/-- What may stand in a YAML text: printable ASCII, tabs, breaks, and everything from U+00A0 on but
surrogates and two noncharacters. -/
def isAllowed (c : CodePoint) : Bool :=
  c == 0x09 || c == 0x0A || c == 0x0D || (0x20 ≤ c && c ≤ 0x7E) || c == 0x85 ||
    (0xA0 ≤ c && c ≤ 0xD7FF) || (0xE000 ≤ c && c ≤ 0xFFFD) || 0x10000 ≤ c

namespace Cursor

/-- The beginning of a text. -/
def start (t : Text) : Cursor := ⟨t, 0, 0, 0⟩

/-- The code point `n` places further on. -/
def peekAt (c : Cursor) (n : Nat) : CodePoint := c.rest.getD n 0

/-- The code point at the cursor. -/
def peek (c : Cursor) : CodePoint := c.rest.headD 0

/-- The cursor one code point further on. -/
def advance (c : Cursor) : Cursor :=
  match c.rest with
  | [] => c
  | p :: rest =>
    if p = 0x0A ∨ (p = 0x0D ∧ rest.head? ≠ some 0x0A) then
      ⟨rest, c.index + 1, c.line + 1, 0⟩
    else if p = byteOrderMark then ⟨rest, c.index + 1, c.line, c.column⟩
    else ⟨rest, c.index + 1, c.line, c.column + 1⟩

/-- The cursor `n` code points further on. -/
def advanceBy (c : Cursor) : (n : Nat) → Cursor
  | 0 => c
  | n + 1 => c.advance.advanceBy n

/-- Three marks of the kind `mark` stand here, at the end of a word. -/
def isAtMarker (mark : CodePoint) (c : Cursor) : Bool :=
  c.rest.take 3 == [mark, mark, mark] && isEndOrGap (c.peekAt 3)

/-- A mark of the beginning or of the end of a document stands here. -/
def isAtDocumentMarker (c : Cursor) : Bool := c.isAtMarker 0x2D || c.isAtMarker 0x2E

end Cursor

namespace Scan

/-- The code point at the cursor. -/
def peek : Scan CodePoint := return (← get).peek

/-- The code point `n` places further on. -/
def peekAt (n : Nat) : Scan CodePoint := return (← get).peekAt n

/-- Goes on by `n` code points. -/
def skip (n : Nat) : Scan Unit := modify (·.advanceBy n)

/-- Takes `n` code points. -/
def take (n : Nat) : Scan Text := do
  let c ← get
  set (c.advanceBy n)
  return c.rest.take n

/-- Takes the code points of a class. -/
def takeWhile (p : CodePoint → Bool) : Scan Text := do
  take ((← get).rest.takeWhile p).length

/-- Goes past the code points of a class. -/
def skipWhile (p : CodePoint → Bool) : Scan Unit := discard (takeWhile p)

/-- Goes past spaces. -/
def skipSpaces : Scan Unit := skipWhile (· == 0x20)

/-- Fails unless the condition holds. -/
def require (b : Bool) : Scan Unit := if b then return () else throw .malformed

/-- Takes a break, if there is one. Every break counts as a line feed, but for the two separators,
which stand for themselves. -/
def takeBreak : Scan Text := do
  let c ← get
  let p := c.peek
  if p = 0x0D ∧ c.peekAt 1 = 0x0A then
    skip 2
    return [0x0A]
  else if p = 0x0A ∨ p = 0x0D ∨ p = 0x85 then
    skip 1
    return [0x0A]
  else if isBreak p then take 1
  else return []

/-- Goes past spaces and a comment up to the end of the line, and past that. -/
def skipRestOfLine : Scan Unit := do
  skipSpaces
  if (← peek) = 0x23 then skipWhile (!isEnd ·)
  require (isEnd (← peek))
  discard takeBreak

end Scan

end Jarsmith.Yaml

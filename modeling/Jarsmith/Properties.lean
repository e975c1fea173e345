import Jarsmith.Text.Basic

/-!
# Property files

A property file is a list of keys and values. Its natural lines are joined into logical ones by a
backslash at the line's end; blank lines and comments are skipped; the key ends at the first
separator or blank that no backslash precedes; and escapes are undone in key and value.

`Properties.parse` reads a text, in the order in which the keys first occur, with the last value
of each. The one way to fail is an escape `\u` without four hexadecimal digits.
-/

namespace Jarsmith

/-- Keys and values in the order in which the keys first occur. -/
abbrev Properties := List (Text × Text)

namespace Properties

/-- What can be wrong with a property file: the digits found after `\u`. -/
structure Error where
  digits : Text
  deriving DecidableEq, Repr

/-- The text of an error. -/
def Error.message (e : Error) : Text := ("非法的 \\uxxxx 转义: \\u" : Text) ++ e.digits

/-- The backslash. -/
@[match_pattern] abbrev backslash : CodePoint := 0x5C

/-- Space, tab and form feed. -/
def isBlank (c : CodePoint) : Bool := c == 0x20 || c == 0x09 || c == 0x0C

/-- The equals sign and the colon. -/
def isSeparator (c : CodePoint) : Bool := c == 0x3D || c == 0x3A

/-- The pieces between line ends, where a carriage return and a line feed after it are one end. -/
def naturalLines : Text → List Text
  | [] => [[]]
  | 0x0D :: 0x0A :: t => [] :: naturalLines t
  | c :: t =>
    if c = 0x0A ∨ c = 0x0D then [] :: naturalLines t
    else match naturalLines t with
      | [] => [[c]]
      | line :: lines => (c :: line) :: lines

/-- The line has an odd number of backslashes at its end, so the next one continues it. -/
def isContinued (line : Text) : Bool := (line.reverse.takeWhile (· == backslash)).length % 2 == 1

/-- A line with nothing on it, or with a comment. -/
def isIgnored : Text → Bool
  | [] => true
  | c :: _ => c == 0x23 || c == 0x21

/-- Joins natural lines, where `pending` is the logical line begun before, without the backslash
that continues it. A continued line is never a comment. -/
def logicalLinesFrom : (pending : Option Text) → List Text → List Text
  | none, [] => []
  | some begun, [] => if begun.isEmpty then [] else [begun]
  | pending, line :: lines =>
    let line := line.dropWhile isBlank
    if pending.isNone && isIgnored line then logicalLinesFrom none lines
    else
      let line := pending.getD [] ++ line
      if isContinued line then logicalLinesFrom (some line.dropLast) lines
      else line :: logicalLinesFrom none lines

/-- The logical lines of a text. -/
def logicalLines (t : Text) : List Text := logicalLinesFrom none (naturalLines t)

/-- The value of four hexadecimal digits. -/
def hexValue? : Text → Option CodePoint
  | [a, b, c, d] => do
    let a ← a.hexValue?
    let b ← b.hexValue?
    let c ← c.hexValue?
    let d ← d.hexValue?
    return ((a * 16 + b) * 16 + c) * 16 + d
  | _ => none

/-- What a backslash and the letter `c` stand for, if the letter is not `u`. -/
def unescapeLetter (c : CodePoint) : CodePoint :=
  if c = 0x74 then 0x09
  else if c = 0x6E then 0x0A
  else if c = 0x72 then 0x0D
  else if c = 0x66 then 0x0C
  else c

/-- Undoes the escapes of a key or value. A backslash at the very end stands for itself. -/
def unescape : Text → Except Error Text
  | [] => .ok []
  | backslash :: 0x75 :: t =>
    match hexValue? (t.take 4) with
    | some c => (unescape (t.drop 4)).map (c :: ·)
    | none => .error ⟨t.take 4⟩
  | backslash :: c :: t => (unescape t).map (unescapeLetter c :: ·)
  | c :: t => (unescape t).map (c :: ·)
termination_by t => t.length

/-- Cuts a logical line before the first separator or blank that no backslash precedes. -/
def cutKey : Text → Text × Text
  | [] => ([], [])
  | [c] => if isSeparator c || isBlank c then ([], [c]) else ([c], [])
  | c :: d :: t =>
    if c = backslash then
      let (key, rest) := cutKey t
      (c :: d :: key, rest)
    else if isSeparator c || isBlank c then ([], c :: d :: t)
    else
      let (key, rest) := cutKey (d :: t)
      (c :: key, rest)
termination_by t => t.length

/-- The value in what follows a key: without the blanks, and without one separator and the blanks
after it. -/
def trimValue (rest : Text) : Text :=
  match rest.dropWhile isBlank with
  | [] => []
  | c :: t => if isSeparator c then t.dropWhile isBlank else c :: t

/-- The key and the value of a logical line. -/
def entry (line : Text) : Except Error (Text × Text) := do
  let (key, rest) := cutKey line
  let key ← unescape key
  let value ← unescape (trimValue rest)
  return (key, value)

/-- Sets the value of a key: in its place if it is there, else at the end. -/
def put (key value : Text) : Properties → Properties
  | [] => [(key, value)]
  | (k, v) :: rest => if k = key then (k, value) :: rest else (k, v) :: put key value rest

/-- Reads a property file. -/
def parse (t : Text) : Except Error Properties :=
  (logicalLines t).foldlM (fun properties line => do
    let (key, value) ← entry line
    return put key value properties) []

end Properties

end Jarsmith

import Jarsmith.Yaml.Token.Cursor

/-!
# Scanning scalars

A scalar is plain, quoted or a block. Breaks inside plain and quoted scalars are folded: a single
one becomes a space, and of several the first is dropped. In blocks the header tells whether breaks
are folded, how far the lines are indented, and which breaks at the end are kept.
-/

namespace Jarsmith.Yaml.Scan

/-- Folds a break and the breaks after it. -/
def fold (first : Text) (more : List Text) : Text :=
  (if first ≠ [0x0A] then first else if more.isEmpty then [0x20] else []) ++ more.flatten

/-! ### Plain scalars -/

/-- The marks of flow collections. -/
def isFlowMark (c : CodePoint) : Bool :=
  c == 0x2C || c == 0x5B || c == 0x5D || c == 0x7B || c == 0x7D

/-- Whether a plain scalar goes on over the code point `c`, after which `next` follows. A colon ends
it only before a gap; inside flow collections their marks end it too. -/
def continuesPlain (v : Version) (inFlow : Bool) (c next : CodePoint) : Bool :=
  if c = 0x3A then !isEndOrGap next
  else if c = 0x3F then v != .old || !inFlow
  else !isEndOrGap c && !(inFlow && isFlowMark c)

/-- The beginning of a text over which a plain scalar goes on. -/
def plainRun (v : Version) (inFlow : Bool) : Text → Text
  | [] => []
  | c :: t => if continuesPlain v inFlow c (t.headD 0) then c :: plainRun v inFlow t else []

/-- Takes the spaces and breaks after the first break inside a plain scalar. At a mark of a document
there is nothing to go on with. -/
def plainBreaks : (fuel : Nat) → Scan (Option (List Text))
  | 0 => return some []
  | fuel + 1 => do
    if (← get).isAtDocumentMarker then return none
    skipSpaces
    if isBreak (← peek) then
      let first ← takeBreak
      return (← plainBreaks fuel).map (first :: ·)
    else return some []

/-- Takes the gap after a run of a plain scalar. Gives what stands for it, nothing if the scalar is
over, and whether there was a break. -/
def plainGap : Scan (Text × Bool) := do
  let spaces ← takeWhile (· == 0x20)
  if isBreak (← peek) then
    let first ← takeBreak
    match ← plainBreaks ((← get).rest.length + 1) with
    | none => return ([], true)
    | some more => return (fold first more, true)
  else return (spaces, false)

/-- Takes runs of a plain scalar and the gaps between them, where `gap` stands before the next run
and `broken` tells whether it has a break. Also tells that of the last gap. -/
def plainRuns (v : Version) (inFlow : Bool) (indent : Int) :
    (fuel : Nat) → (gap : Text) → (broken : Bool) → Scan (Text × Bool)
  | 0, _, broken => return ([], broken)
  | fuel + 1, gap, broken => do
    if (← peek) = 0x23 then return ([], broken)
    let run ← take (plainRun v inFlow (← get).rest).length
    if run.isEmpty then return ([], broken)
    let (next, broken) ← plainGap
    let c ← get
    if next.isEmpty || c.peek == 0x23 || (!inFlow && (c.column : Int) < indent) then
      return (gap ++ run, broken)
    else
      let (rest, broken) ← plainRuns v inFlow indent fuel next broken
      return (gap ++ run ++ rest, broken)

/-- Scans a plain scalar, whose further lines must be indented by `indent`. Also tells whether it is
followed by a break, after which a key may stand. -/
def plain (v : Version) (inFlow : Bool) (indent : Int) : Scan (Text × Bool) := do
  plainRuns v inFlow indent ((← get).rest.length + 1) [] false

/-! ### Quoted scalars -/

/-- Takes the breaks inside a quoted scalar, with the gaps around them. -/
def quotedBreaks : (fuel : Nat) → Scan (List Text)
  | 0 => return []
  | fuel + 1 => do
    require (!(← get).isAtDocumentMarker)
    skipWhile isGap
    if isBreak (← peek) then
      let first ← takeBreak
      return first :: (← quotedBreaks fuel)
    else return []

/-- Takes all breaks that stand here inside a quoted scalar. -/
def takeQuotedBreaks : Scan (List Text) := do quotedBreaks ((← get).rest.length + 1)

/-- Takes a gap inside a quoted scalar. -/
def quotedGap : Scan Text := do
  let gap ← takeWhile isGap
  let c ← peek
  require (c != 0)
  if isBreak c then
    let first ← takeBreak
    return fold first (← takeQuotedBreaks)
  else return gap

/-- What a letter after a backslash stands for. -/
def escapes : List (CodePoint × CodePoint) :=
  [(0x30, 0x00), (0x61, 0x07), (0x62, 0x08), (0x74, 0x09), (0x09, 0x09), (0x6E, 0x0A), (0x76, 0x0B),
    (0x66, 0x0C), (0x72, 0x0D), (0x65, 0x1B), (0x20, 0x20), (0x22, 0x22), (0x2F, 0x2F),
    (0x5C, 0x5C), (0x4E, 0x85), (0x5F, 0xA0), (0x4C, 0x2028), (0x50, 0x2029)]

/-- The number of digits after a letter that begins an escape by number. -/
def escapeWidths : List (CodePoint × Nat) := [(0x78, 2), (0x75, 4), (0x55, 8)]

/-- The number that hexadecimal digits write. -/
def hexNumber? (digits : Text) : Option Nat :=
  digits.foldlM (fun n c => c.hexValue?.map (n * 16 + ·)) 0

/-- The code point of a number, which may lie beyond Unicode. -/
def pointOf (n : Nat) : Except Error CodePoint :=
  if n < 0x110000 then .ok n
  else if n < Nat.pow 2 31 then .error (.noSuchValue .value "chr() arg not in range(0x110000)")
  else .error (.noSuchValue .overflow "Python int too large to convert to C int")

/-- Takes what follows a backslash. -/
def escape : Scan Text := do
  let c ← peek
  match escapes.lookup c, escapeWidths.lookup c with
  | some p, _ =>
    skip 1
    return [p]
  | none, some width =>
    skip 1
    let digits ← take width
    require (digits.length == width)
    match hexNumber? digits with
    | some n => return [← pointOf n]
    | none => throw .malformed
  | none, none =>
    require (isBreak c)
    discard takeBreak
    return (← takeQuotedBreaks).flatten

/-- What a run inside a quoted scalar stops at. -/
def stopsQuoted (c : CodePoint) : Bool :=
  isEndOrGap c || isBreak c || c == 0x27 || c == 0x22 || c == 0x5C

/-- Takes a quoted scalar up to its end, the quote `quote`. -/
def quotedRuns (quote : CodePoint) : (fuel : Nat) → Scan Text
  | 0 => throw .malformed
  | fuel + 1 => do
    let run ← takeWhile (!stopsQuoted ·)
    let c ← peek
    if c = quote then
      if quote = 0x27 ∧ (← peekAt 1) = 0x27 then
        skip 2
        return run ++ 0x27 :: (← quotedRuns quote fuel)
      else
        skip 1
        return run
    else if quote = 0x22 ∧ c = 0x5C then
      skip 1
      let p ← escape
      return run ++ p ++ (← quotedRuns quote fuel)
    else if c = 0x27 ∨ c = 0x22 ∨ c = 0x5C then
      skip 1
      return run ++ c :: (← quotedRuns quote fuel)
    else
      let gap ← quotedGap
      return run ++ gap ++ (← quotedRuns quote fuel)

/-- Scans a quoted scalar. -/
def quoted : Scan Text := do
  let quote ← peek
  skip 1
  quotedRuns quote ((← get).rest.length + 1)

/-! ### Block scalars -/

/-- Which breaks at the end of a block scalar are kept: none, one, or all. -/
inductive Chomping where
  | strip
  | clip
  | keep
  deriving DecidableEq, Repr

/-- The chomping that a sign asks for. -/
def chomping? (c : CodePoint) : Option Chomping :=
  if c = 0x2B then some .keep else if c = 0x2D then some .strip else none

/-- Takes a digit of the header, which may not be zero. -/
def headerDigit : Scan (Option Nat) := do
  let c ← peek
  if c.isDigit then
    require (c != 0x30)
    skip 1
    return some (c - 0x30)
  else return none

/-- Takes a sign of the header. -/
def headerSign : Scan (Option Chomping) := do
  match chomping? (← peek) with
  | some chomping =>
    skip 1
    return some chomping
  | none => return none

/-- Takes the header of a block scalar: a sign and a digit in any order, both of which may be left
out, and a comment. -/
def blockHeader : Scan (Chomping × Option Nat) := do
  let before ← headerSign
  let digit ← headerDigit
  let after ← if before.isSome || digit.isNone then pure none else headerSign
  require (isEndBreakOrSpace (← peek))
  skipRestOfLine
  return ((before.or after).getD .clip, digit)

/-- Takes the empty lines at the beginning of a block scalar. Gives the breaks, and the greatest
indentation among these lines and the one after them. -/
def blockIndentation : (fuel : Nat) → Scan (List Text × Nat)
  | 0 => return ([], 0)
  | fuel + 1 => do
    let spaces ← takeWhile (· == 0x20)
    let c ← get
    let column := if spaces.isEmpty then 0 else c.column
    if isBreak (← peek) then
      let first ← takeBreak
      let (more, indentation) ← blockIndentation fuel
      return (first :: more, max column indentation)
    else return ([], column)

/-- Goes past spaces up to a column. -/
def skipIndentation (indent : Nat) : (fuel : Nat) → Scan Unit
  | 0 => return
  | fuel + 1 => do
    let c ← get
    if c.column < indent ∧ c.peek = 0x20 then
      skip 1
      skipIndentation indent fuel

/-- Takes empty lines inside a block scalar, and the indentation of the line after them. -/
def blockBreaks (indent : Nat) : (fuel : Nat) → Scan (List Text)
  | 0 => return []
  | fuel + 1 => do
    skipIndentation indent indent
    if isBreak (← peek) then
      let first ← takeBreak
      return first :: (← blockBreaks indent fuel)
    else return []

/-- Takes the empty lines that stand here inside a block scalar. -/
def takeBlockBreaks (indent : Nat) : Scan (List Text) := do
  blockBreaks indent ((← get).rest.length + 1)

/-- Takes the lines of a block scalar, where `breaks` are the empty lines before the next one. Gives
the text, the break after its last line, and the empty lines after that. -/
def blockLines (folded mayEnd : Bool) (indent : Nat) : (fuel : Nat) → List Text →
    Scan (Text × Text × List Text)
  | 0, breaks => return ([], [], breaks)
  | fuel + 1, breaks => do
    let c ← get
    if c.column = indent ∧ c.peek ≠ 0 then
      let isOpen := !isGap c.peek
      let line ← takeWhile (!isEnd ·)
      let last ← takeBreak
      let next ← takeBlockBreaks indent
      let c ← get
      let ends := mayEnd && c.column == 0 && c.isAtDocumentMarker
      if !ends && c.column == indent && c.peek != 0 then
        let joint := if folded && last == [0x0A] && isOpen && !isGap c.peek then
            (if next.isEmpty then [0x20] else [])
          else last
        let (rest, last, next) ← blockLines folded mayEnd indent fuel next
        return (breaks.flatten ++ line ++ joint ++ rest, last, next)
      else return (breaks.flatten ++ line, last, next)
    else return ([], [], breaks)

/-- Scans a block scalar in a block with the indentation `outer`. -/
def block (outer : Int) : Scan Text := do
  let folded := (← peek) == 0x3E
  skip 1
  let (chomping, digit?) ← blockHeader
  let least := (outer + 1).toNat
  let fuel := (← get).rest.length + 1
  let (breaks, indent) ← match digit? with
    | some digit => do
      let indent := max least 1 + digit - 1
      pure (← takeBlockBreaks indent, indent)
    | none => do
      let (breaks, found) ← blockIndentation fuel
      pure (breaks, max least found)
  let (text, last, more) ← blockLines folded (digit?.isNone && least == 0) indent fuel breaks
  match chomping with
  | .strip => return text
  | .clip => return text ++ last
  | .keep => return text ++ last ++ more.flatten

end Jarsmith.Yaml.Scan

import Jarsmith.Yaml.Token.Cursor
import Jarsmith.Text.Utf8

/-!
# Scanning anchors, tags and directives
-/

namespace Jarsmith.Yaml.Scan

/-! ### Anchors -/

/-- What the name of an anchor consists of. -/
def isAnchorPoint (c : CodePoint) : Bool :=
  ((0x21 ≤ c && c ≤ 0x7E) || (0xA0 ≤ c && c ≤ 0xD7FF) ||
    (0xE000 ≤ c && c ≤ 0xFFFD && c != byteOrderMark) || 0x10000 ≤ c) &&
  !(c == 0x2C || c == 0x5B || c == 0x5D || c == 0x7B || c == 0x7D)

/-- What may follow the name of an anchor. -/
def endsAnchor (c : CodePoint) : Bool :=
  c == 0 || isGap c || isBreak c || (Text.ofString "?:,[]\x7b\x7d%@\x60").elem c

/-- Takes the name after the mark of an anchor or of a reference to one. -/
def anchorName : Scan Text := do
  skip 1
  let name ← takeWhile isAnchorPoint
  require (!name.isEmpty && endsAnchor (← peek))
  return name

/-! ### Tags -/

/-- What a tag consists of besides escapes. -/
def isTagPoint (v : Version) (c : CodePoint) : Bool :=
  c.isDigit || c.isLetter || (Text.ofString "-;/?:@&=+$,_.!~*'()[]").elem c ||
    (v != .old && c == 0x23)

/-- Takes escapes of bytes: a percent sign and two hexadecimal digits each. -/
def escapedBytes : (fuel : Nat) → Scan (List UInt8)
  | 0 => return []
  | fuel + 1 => do
    if (← peek) = 0x25 then
      skip 1
      match ← take 2 with
      | [a, b] =>
        match a.hexValue?, b.hexValue? with
        | some x, some y => return (x * 16 + y).toUInt8 :: (← escapedBytes fuel)
        | _, _ => throw .malformed
      | _ => throw .malformed
    else return []

/-- Takes the parts of a tag: plain ones and escaped ones. -/
def tagParts (v : Version) : (fuel : Nat) → Scan Text
  | 0 => return []
  | fuel + 1 => do
    let part ← takeWhile (isTagPoint v)
    if (← peek) = 0x25 then
      match Utf8.decode (← escapedBytes ((← get).rest.length + 1)) with
      | none => throw .malformed
      | some t => return part ++ t ++ (← tagParts v fuel)
    else return part

/-- Takes a tag, which may not be empty. -/
def tagText (v : Version) : Scan Text := do
  let t ← tagParts v ((← get).rest.length + 1)
  require (!t.isEmpty)
  return t

/-- What a handle consists of between its exclamation marks. -/
def isHandlePoint (c : CodePoint) : Bool := c.isDigit || c.isLetter || c == 0x2D || c == 0x5F

/-- Takes a handle: an exclamation mark, and a name with one after it unless a space follows. -/
def handle : Scan Text := do
  require ((← peek) == 0x21)
  skip 1
  if (← peek) = 0x20 then return [0x21]
  let name ← takeWhile isHandlePoint
  require ((← peek) == 0x21)
  skip 1
  return 0x21 :: name ++ [0x21]

/-- A second exclamation mark stands before the next space or break. -/
def hasHandle (t : Text) : Bool :=
  (t.drop 1).takeWhile (!isEndBreakOrSpace ·) |>.elem 0x21

/-- Takes a tag as it stands before a node. -/
def tag (v : Version) : Scan Token := do
  let c ← get
  let next := c.peekAt 1
  let token ←
    if next = 0x3C then do
      skip 2
      let t ← tagText v
      require ((← peek) == 0x3E)
      skip 1
      pure (Token.tag none t)
    else if isEndOrGap next then do
      skip 1
      pure (Token.tag none [0x21])
    else if hasHandle c.rest then do
      let handle ← handle
      pure (Token.tag (some handle) (← tagText v))
    else do
      skip 1
      pure (Token.tag (some [0x21]) (← tagText v))
  require (isEndBreakOrSpace (← peek))
  return token

/-! ### Directives -/

/-- What the name of a directive consists of. -/
def isDirectivePoint (c : CodePoint) : Bool :=
  c.isDigit || c.isLetter || c == 0x2D || c == 0x5F || c == 0x3A || c == 0x2E

/-- Takes a number, which must have a digit. -/
def number : Scan Nat := do
  let digits ← takeWhile CodePoint.isDigit
  require (!digits.isEmpty)
  return digits.foldl (fun n c => n * 10 + (c - 0x30)) 0

/-- Takes what follows the name of a directive for the version. -/
def versionDirective : Scan Token := do
  skipSpaces
  let major ← number
  require ((← peek) == 0x2E)
  skip 1
  let minor ← number
  require (isEndBreakOrSpace (← peek))
  return .versionDirective ⟨major, minor⟩

/-- Takes what follows the name of a directive for a handle. -/
def tagDirective (v : Version) : Scan Token := do
  skipSpaces
  let handle ← handle
  require ((← peek) == 0x20)
  skipSpaces
  let uri ← tagText v
  require (isEndBreakOrSpace (← peek))
  return .tagDirective handle uri

/-- Takes a directive and the rest of its line. -/
def directive (v : Version) : Scan Token := do
  skip 1
  let name ← takeWhile isDirectivePoint
  require (!name.isEmpty && isEndBreakOrSpace (← peek))
  let token ←
    if name = "YAML" then versionDirective
    else if name = "TAG" then tagDirective v
    else do
      skipWhile (!isEnd ·)
      pure .otherDirective
  skipRestOfLine
  return token

end Jarsmith.Yaml.Scan

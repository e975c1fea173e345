import Jarsmith.Yaml.Token.Property
import Jarsmith.Yaml.Token.Scalar

/-!
# Cutting a YAML text into tokens

A scalar, an alias or a collection may turn out to be a key only when the colon after it is found.
Where one begins, a key is possible, and remembered with its place among the tokens; when a colon
follows on the same line, the mark of the key is put there, and before it, if the key is indented
further than the block around it, the beginning of a mapping. The end of a block is marked as soon
as something stands further to the left.
-/

namespace Jarsmith.Yaml

/-- A place where a key may have begun. -/
structure PossibleKey where
  /-- How many flow collections are open around it. -/
  depth : Nat
  /-- How many tokens stand before it. -/
  before : Nat
  /-- Whether something that begins here must be a key. -/
  required : Bool
  index : Nat
  line : Nat
  column : Nat
  deriving Repr

/-- The flow collections. -/
inductive Flow where
  | sequence
  | mapping
  deriving DecidableEq, Repr

/-- What is known while a text is cut into tokens. -/
structure Lexer where
  cursor : Cursor
  /-- The tokens found so far, last first. -/
  tokens : List Token
  /-- The open flow collections, innermost first. -/
  flows : List Flow
  /-- The indentation of the innermost block, and of those around it. -/
  indent : Int
  outer : List Int
  /-- Whether a key may begin here. -/
  keyAllowed : Bool
  keys : List PossibleKey
  version : Version

/-- A step of the lexer. -/
abbrev Lex := StateT Lexer (Except Error)

namespace Lexer

/-- The lexer at the beginning of a text. -/
def start (t : Text) : Lexer where
  cursor := .start t
  tokens := []
  flows := []
  indent := -1
  outer := []
  keyAllowed := true
  keys := []
  version := .standard

/-- The place is inside a flow collection. -/
def inFlow (l : Lexer) : Bool := !l.flows.isEmpty

/-- The possible key at the innermost level. -/
def key? (l : Lexer) : Option PossibleKey := l.keys.find? (·.depth = l.flows.length)

/-- The most code points that a key may have. -/
abbrev longestKey : Nat := 1024

/-- A possible key can no longer be one, since its line is over or it is too long. -/
def isStale (l : Lexer) (k : PossibleKey) : Bool :=
  k.line != l.cursor.line || l.cursor.index - k.index > longestKey

end Lexer

namespace Lex

/-- Fails unless the condition holds. -/
def require (b : Bool) : Lex Unit := if b then return () else throw .malformed

/-- Reads on from the cursor. -/
def scan {α : Type} (s : Scan α) : Lex α := do
  let l ← get
  let (a, cursor) ← (s.run l.cursor : Except Error (α × Cursor))
  set { l with cursor }
  return a

/-- Adds a token. -/
def push (t : Token) : Lex Unit := modify fun l => { l with tokens := t :: l.tokens }

/-- Adds tokens at a place before which there are `before` tokens. -/
def insertAt (before : Nat) (ts : List Token) : Lex Unit :=
  modify fun l =>
    let later := l.tokens.take (l.tokens.length - before)
    { l with tokens := later ++ ts.reverse ++ l.tokens.drop later.length }

/-- Says whether a key may begin here. -/
def allowKey (b : Bool) : Lex Unit := modify fun l => { l with keyAllowed := b }

/-- Gives up the possible keys that can no longer be keys. One that is required must not be lost. -/
def dropStaleKeys : Lex Unit := do
  let l ← get
  require (!l.keys.any fun k => l.isStale k && k.required)
  set { l with keys := l.keys.filter fun k => !l.isStale k }

/-- Gives up the possible key at the innermost level. -/
def dropKey : Lex Unit := do
  let l ← get
  require (!(l.key?.map (·.required)).getD false)
  set { l with keys := l.keys.filter (·.depth ≠ l.flows.length) }

/-- Remembers that a key may begin here. -/
def saveKey : Lex Unit := do
  if (← get).keyAllowed then
    dropKey
    modify fun l =>
      let c := l.cursor
      { l with keys := l.keys ++ [{
          depth := l.flows.length, before := l.tokens.length
          required := !l.inFlow && l.indent == c.column
          index := c.index, line := c.line, column := c.column }] }

/-- Ends the blocks that are indented further than `column`. -/
def closeBlocks (column : Int) : Lex Unit := do
  let l ← get
  if l.inFlow then return
  let closed := (l.indent :: l.outer).takeWhile (column < ·)
  match (l.indent :: l.outer).drop closed.length with
  | [] => throw .malformed
  | indent :: outer =>
    set { l with
      indent, outer, tokens := List.replicate closed.length Token.blockEnd ++ l.tokens }

/-- Begins a block at a column, unless the innermost one is there. Tells whether it did. -/
def openBlock (column : Nat) : Lex Bool := do
  let l ← get
  if l.indent < column then
    set { l with indent := (column : Int), outer := l.indent :: l.outer }
    return true
  else return false

/-- Goes past spaces, breaks and comments to the next token. After a break outside flow collections
a key may begin. -/
def skipToToken : (fuel : Nat) → Lex Unit
  | 0 => return
  | fuel + 1 => do
    let inFlow := (← get).inFlow
    let broke ← scan do
      Scan.skipWhile fun c => c == 0x20 || (inFlow && c == 0x09)
      if (← Scan.peek) = 0x23 then Scan.skipWhile (!isEnd ·)
      return !(← Scan.takeBreak).isEmpty
    if broke then
      unless inFlow do allowKey true
      skipToToken fuel

/-- Leaves all blocks, as a directive or a mark of a document does. -/
def leaveBlocks : Lex Unit := do
  closeBlocks (-1)
  dropKey
  allowKey false

/-- A token of one mark. -/
def mark (t : Token) : Lex Unit := do
  scan (Scan.skip 1)
  push t

/-- A directive. A directive for the version decides what rules hold from here on. -/
def directive : Lex Unit := do
  leaveBlocks
  let t ← scan (Scan.directive (← get).version)
  if let .versionDirective version := t then modify fun l => { l with version }
  push t

/-- A mark of the beginning or the end of a document. -/
def documentMarker (t : Token) : Lex Unit := do
  leaveBlocks
  scan (Scan.skip 3)
  push t

/-- The beginning of a flow collection, which may be a key. -/
def openFlow (flow : Flow) (t : Token) : Lex Unit := do
  saveKey
  modify fun l => { l with flows := flow :: l.flows, keyAllowed := true }
  mark t

/-- The end of a flow collection. -/
def closeFlow (t : Token) : Lex Unit := do
  dropKey
  modify fun l => { l with flows := l.flows.drop 1, keyAllowed := false }
  mark t

/-- The comma between the entries of a flow collection. -/
def flowEntry : Lex Unit := do
  allowKey true
  dropKey
  mark .flowEntry

/-- The hyphen of an entry of a sequence. -/
def blockEntry : Lex Unit := do
  let l ← get
  unless l.inFlow do
    require l.keyAllowed
    if ← openBlock l.cursor.column then push .blockSequenceStart
  allowKey true
  dropKey
  mark .blockEntry

/-- The mark of a key that is written out. -/
def keyMark : Lex Unit := do
  let l ← get
  unless l.inFlow do
    require l.keyAllowed
    if ← openBlock l.cursor.column then push .blockMappingStart
  allowKey (!l.inFlow)
  dropKey
  mark .key

/-- The colon before a value. If a key was possible, there is one now. -/
def valueMark : Lex Unit := do
  let l ← get
  match l.key? with
  | some k =>
    modify fun l => { l with keys := l.keys.filter (·.depth ≠ l.flows.length) }
    let opens ← if l.inFlow then pure false else openBlock k.column
    insertAt k.before (if opens then [.blockMappingStart, .key] else [.key])
    allowKey false
  | none =>
    unless l.inFlow do
      require l.keyAllowed
      if ← openBlock l.cursor.column then push .blockMappingStart
    allowKey (!l.inFlow)
    dropKey
  mark .value

/-- A token that may be a key. -/
def keyLike (s : Version → Scan Token) : Lex Unit := do
  saveKey
  allowKey false
  push (← scan (s (← get).version))

/-- A block scalar, after which a key may begin. -/
def blockScalar : Lex Unit := do
  allowKey true
  dropKey
  let l ← get
  push (.scalar .block (← scan (Scan.block l.indent)))

/-- A plain scalar. If a break follows it, a key may begin after it. -/
def plainScalar : Lex Unit := do
  saveKey
  allowKey false
  let l ← get
  let (t, broken) ← scan (Scan.plain l.version l.inFlow (l.indent + 1))
  allowKey broken
  push (.scalar .plain t)

/-- Whether the colon here stands before a value. `isPending` tells whether tokens before it are
still waiting for a key to be found. -/
def isValueMark (l : Lexer) (isPending : Bool) : Bool :=
  let followed := isEndOrGap (l.cursor.peekAt 1)
  if l.version = .old then l.inFlow || followed
  else match l.flows with
    | [] => followed
    | .sequence :: _ => followed
    | .mapping :: _ => !(isPending && l.tokens.head? == some .value) || followed

/-- The marks with which no plain scalar begins. -/
def indicators : Text := "-?:,[]\x7b\x7d#&*!|>'\"%@\x60"

/-- Whether a plain scalar begins here. -/
def isPlainStart (l : Lexer) : Bool :=
  let c := l.cursor.peek
  let next := l.cursor.peekAt 1
  if !(c == 0 || isGap c || isBreak c || indicators.elem c) then true
  else if c = 0x2D then !isEndOrGap next
  else if c = 0x3A ∧ l.inFlow then l.version != .old && !isGap next
  else (c == 0x3F || c == 0x3A) && !l.inFlow && !isEndOrGap next

/-- Takes the next token. Tells whether the text is over. -/
def next : Lex Bool := do
  dropStaleKeys
  let isPending := !(← get).keys.isEmpty
  skipToToken ((← get).cursor.rest.length + 1)
  dropStaleKeys
  closeBlocks (← get).cursor.column
  let l ← get
  let c := l.cursor
  let following := isEndOrGap (c.peekAt 1)
  let atStart := c.column == 0
  match c.peek with
  | 0x00 =>
    leaveBlocks
    push .streamEnd
    return true
  | 0x5B => openFlow .sequence .flowSequenceStart
  | 0x7B => openFlow .mapping .flowMappingStart
  | 0x5D => closeFlow .flowSequenceEnd
  | 0x7D => closeFlow .flowMappingEnd
  | 0x2C => flowEntry
  | 0x2A => keyLike fun _ => return .anchorRef (← Scan.anchorName)
  | 0x26 => keyLike fun _ => return .anchor (← Scan.anchorName)
  | 0x21 => keyLike Scan.tag
  | 0x27 | 0x22 => keyLike fun _ => return .scalar .quoted (← Scan.quoted)
  | p =>
    if p = 0x25 ∧ atStart then directive
    else if atStart ∧ c.isAtMarker 0x2D then documentMarker .documentStart
    else if atStart ∧ c.isAtMarker 0x2E then documentMarker .documentEnd
    else if p = 0x2D ∧ following then blockEntry
    else if p = 0x3F ∧ (l.inFlow ∨ following) then keyMark
    else if p = 0x3A ∧ isValueMark l isPending then valueMark
    else if (p = 0x7C ∨ p = 0x3E) ∧ !l.inFlow then blockScalar
    else if isPlainStart l then plainScalar
    else throw .malformed
  return false

/-- Takes tokens until the text is over. -/
def all : (fuel : Nat) → Lex Unit
  | 0 => throw .malformed
  | fuel + 1 => do
    unless ← next do all fuel

end Lex

/-- The tokens of a text, and the version of the format that it asks for. A mark for the order of
bytes at the beginning is not part of the text. -/
def tokens (t : Text) : Except Error (List Token × Version) := do
  if !t.all isAllowed then throw .malformed
  let t' := match t with
    | c :: rest => if c = byteOrderMark then rest else c :: rest
    | [] => []
  let (_, l) ← (Lex.all (t.length + 2)).run (.start t')
  return (l.tokens.reverse, l.version)

end Jarsmith.Yaml

import Jarsmith.Yaml.Node
import Jarsmith.Yaml.Scalar
import Jarsmith.Yaml.Token.Lexer

/-!
# The node that tokens write

The tokens of a text are read as one document. An alias stands for the node that had the anchor
last, and the entries that a merge key names are looked up at once, so that a node is complete as
soon as it is read.
-/

namespace Jarsmith.Yaml

/-- What is known while tokens are read. -/
structure Reading where
  tokens : List Token
  anchors : List (Text × Node)
  /-- What the handles of tags stand for. -/
  handles : List (Text × Text)
  version : Version

/-- A step of reading tokens. -/
abbrev Read := StateT Reading (Except Error)

namespace Read

/-- The next token. -/
def peek : Read Token := return (← get).tokens.headD .streamEnd

/-- Goes past the next token. -/
def skip : Read Unit := modify fun r => { r with tokens := r.tokens.drop 1 }

/-- Goes past the next token if it is the given one, and tells whether it was. -/
def accept (t : Token) : Read Bool := do
  if (← peek) = t then
    skip
    return true
  else return false

/-- The next token is one of the given ones. -/
def isAt (ts : List Token) : Read Bool := return ts.contains (← peek)

/-- The version is later than the old one. -/
def isNew : Read Bool := return (← get).version != .old

/-- Gives a node its anchor. -/
def define (anchor? : Option Text) (n : Node) : Read Node := do
  if let some name := anchor? then
    modify fun r => { r with anchors := (name, n) :: r.anchors }
  return n

/-- The scalar that is not written. -/
def emptyNode : Node := .scalar .null []

/-- The full name of a tag. -/
def fullName (handle? : Option Text) (rest : Text) : Read Text := do
  match handle? with
  | none => return rest
  | some handle =>
    match (← get).handles.lookup handle with
    | some uri => return uri ++ rest
    | none => throw .malformed

/-- Takes an anchor and the name of a tag, in either order, as far as they are there. -/
def properties : Read (Option Text × Option Text) := do
  match ← peek with
  | .anchor name =>
    skip
    match ← peek with
    | .tag handle? rest =>
      skip
      return (some name, some (← fullName handle? rest))
    | _ => return (some name, none)
  | .tag handle? rest =>
    skip
    let tag ← fullName handle? rest
    match ← peek with
    | .anchor name =>
      skip
      return (some name, some tag)
    | _ => return (none, some tag)
  | _ => return (none, none)

/-- The name that asks for the tag that a node would have if it were plain. -/
def plainName : Text := "!"

/-- The tag of a scalar. -/
def scalarTag (v : Version) (name? : Option Text) (style : Style) (t : Text) : Tag :=
  match name? with
  | none => if style = .plain then plainTag v t else .text
  | some name => if name = plainName then plainTag v t else .ofName name

/-- The tag of a collection. -/
def collectionTag (ifNone : Tag) (name? : Option Text) : Tag :=
  match name? with
  | none => ifNone
  | some name => if name = plainName then ifNone else .ofName name

/-- All entries of a mapping that is merged into another one. -/
def mergedEntries : Node → Except Error (List (Node × Node))
  | .mapping _ merged own => .ok (merged ++ own)
  | _ => .error .malformed

/-- The entries that the value of a merge key stands for. Of several mappings the first ones count
most, and so stand last. -/
def mergeSource : Node → Except Error (List (Node × Node))
  | .sequence _ items => (items.reverse.mapM mergedEntries).map List.flatten
  | n => mergedEntries n

/-- The key is the merge key. -/
def isMergeKey : Node → Bool
  | .scalar .merge _ => true
  | _ => false

/-- A key that is the mark of a value is a text. -/
def plainKey : Node → Node
  | .scalar .value t => .scalar .text t
  | n => n

/-- Makes a mapping of its entries. Only one merge key may bring entries. -/
def mappingOf (tag : Tag) (entries : List (Node × Node)) : Except Error Node := do
  let sources ← (entries.filter (isMergeKey ·.1)).mapM (mergeSource ·.2)
  if (sources.dropLast.any (!·.isEmpty)) then throw .malformed
  let own := (entries.filter (!isMergeKey ·.1)).map fun (key, value) => (plainKey key, value)
  return .mapping tag sources.flatten own

/-- The node of an alias. -/
def aliased (name : Text) : Read Node := do
  match (← get).anchors.lookup name with
  | some n => return n
  | none => throw .malformed

mutual

/-- Takes a node. Blocks are allowed only outside flow collections, and sequences that are not
indented only as keys and values of block mappings. -/
def node (inBlock indentless : Bool) : (fuel : Nat) → Read Node
  | 0 => throw .malformed
  | fuel + 1 => do
    if let .anchorRef name ← peek then
      skip
      return ← aliased name
    let (anchor?, tag?) ← properties
    let v := (← get).version
    match ← peek with
    | .scalar style t =>
      skip
      define anchor? (.scalar (scalarTag v tag? style t) t)
    | .flowSequenceStart =>
      skip
      let items ← flowItems true fuel
      define anchor? (.sequence (collectionTag .sequence tag?) items)
    | .flowMappingStart =>
      skip
      let entries ← flowEntries true fuel
      define anchor? (← mappingOf (collectionTag .mapping tag?) entries)
    | .blockEntry =>
      if indentless then
        let items ← indentlessItems fuel
        define anchor? (.sequence (collectionTag .sequence tag?) items)
      else absent anchor? tag?
    | .blockSequenceStart =>
      if inBlock then
        skip
        let items ← blockItems fuel
        define anchor? (.sequence (collectionTag .sequence tag?) items)
      else absent anchor? tag?
    | .blockMappingStart =>
      if inBlock then
        skip
        let entries ← blockEntries fuel
        define anchor? (← mappingOf (collectionTag .mapping tag?) entries)
      else absent anchor? tag?
    | _ => absent anchor? tag?

/-- The node of an anchor or a tag after which nothing is written. -/
def absent (anchor? tag? : Option Text) : Read Node := do
  if anchor?.isNone && tag?.isNone then throw .malformed
  let v := (← get).version
  define anchor? (.scalar (scalarTag v tag? .plain []) [])

/-- Takes a node, or nothing before one of the given tokens. -/
def nodeUnless (ends : List Token) (inBlock indentless : Bool) : (fuel : Nat) → Read Node
  | 0 => throw .malformed
  | fuel + 1 => do
    if ← isAt ends then return emptyNode
    node inBlock indentless fuel

/-- Takes the items of a block sequence up to its end. -/
def blockItems : (fuel : Nat) → Read (List Node)
  | 0 => throw .malformed
  | fuel + 1 => do
    if ← accept .blockEntry then
      let item ← nodeUnless [.blockEntry, .blockEnd] true false fuel
      return item :: (← blockItems fuel)
    else if ← accept .blockEnd then return []
    else throw .malformed

/-- Takes the items of a sequence that is not indented. -/
def indentlessItems : (fuel : Nat) → Read (List Node)
  | 0 => throw .malformed
  | fuel + 1 => do
    if ← accept .blockEntry then
      let item ← nodeUnless [.blockEntry, .key, .value, .blockEnd] true false fuel
      return item :: (← indentlessItems fuel)
    else return []

/-- Takes the entries of a block mapping up to its end. -/
def blockEntries : (fuel : Nat) → Read (List (Node × Node))
  | 0 => throw .malformed
  | fuel + 1 => do
    if ← accept .key then
      let key ← nodeUnless [.key, .value, .blockEnd] true true fuel
      let value ← blockValue fuel
      return (key, value) :: (← blockEntries fuel)
    else if (← isNew) && (← isAt [.value]) then
      let value ← blockValue fuel
      return (emptyNode, value) :: (← blockEntries fuel)
    else if ← accept .blockEnd then return []
    else throw .malformed

/-- Takes the value of an entry of a block mapping. -/
def blockValue : (fuel : Nat) → Read Node
  | 0 => throw .malformed
  | fuel + 1 => do
    if ← accept .value then nodeUnless [.key, .value, .blockEnd] true true fuel
    else return emptyNode

/-- Takes the items of a flow sequence up to its end. An item may be an entry of a mapping. -/
def flowItems (isFirst : Bool) : (fuel : Nat) → Read (List Node)
  | 0 => throw .malformed
  | fuel + 1 => do
    if ← accept .flowSequenceEnd then return []
    unless isFirst do
      unless ← accept .flowEntry do throw .malformed
    if ← accept .key then
      let key ← nodeUnless [.value, .flowEntry, .flowSequenceEnd] false false fuel
      let value ← if ← accept .value then
          nodeUnless [.flowEntry, .flowSequenceEnd] false false fuel
        else pure emptyNode
      let item ← mappingOf .mapping [(key, value)]
      return item :: (← flowItems false fuel)
    else if ← accept .flowSequenceEnd then return []
    else
      let item ← node false false fuel
      return item :: (← flowItems false fuel)

/-- Takes the entries of a flow mapping up to its end. -/
def flowEntries (isFirst : Bool) : (fuel : Nat) → Read (List (Node × Node))
  | 0 => throw .malformed
  | fuel + 1 => do
    if ← accept .flowMappingEnd then return []
    unless isFirst do
      unless ← accept .flowEntry do throw .malformed
    if ← accept .key then
      let key ← nodeUnless [.value, .flowEntry, .flowMappingEnd] false false fuel
      let value ← flowValue fuel
      return (key, value) :: (← flowEntries false fuel)
    else if (← isNew) && (← isAt [.value]) then
      let value ← flowValue fuel
      return (emptyNode, value) :: (← flowEntries false fuel)
    else if ← accept .flowMappingEnd then return []
    else
      let key ← node false false fuel
      return (key, emptyNode) :: (← flowEntries false fuel)

/-- Takes the value of an entry of a flow mapping. -/
def flowValue : (fuel : Nat) → Read Node
  | 0 => throw .malformed
  | fuel + 1 => do
    if ← accept .value then nodeUnless [.flowEntry, .flowMappingEnd] false false fuel
    else return emptyNode

end

/-- The handles of tags that need no directive. -/
def standardHandles : List (Text × Text) := [([0x21], [0x21]), ([0x21, 0x21], Tag.standardPart)]

/-- Takes the directives of a document. -/
def directives : (fuel : Nat) → (hasVersion : Bool) → (handles : List (Text × Text)) →
    Read (List (Text × Text))
  | 0, _, handles => return handles
  | fuel + 1, hasVersion, handles => do
    match ← peek with
    | .versionDirective v =>
      if hasVersion || v.major != 1 then throw .malformed
      skip
      directives fuel true handles
    | .tagDirective handle uri =>
      if (handles.lookup handle).isSome then throw .malformed
      skip
      directives fuel hasVersion ((handle, uri) :: handles)
    | .otherDirective =>
      skip
      directives fuel hasVersion handles
    | _ => return handles

/-- Goes past the marks of the end of a document. -/
def documentEnds : (fuel : Nat) → Read Unit
  | 0 => return
  | fuel + 1 => do
    if ← accept .documentEnd then documentEnds fuel

/-- A directive comes next. -/
def isAtDirective : Read Bool := do
  match ← peek with
  | .versionDirective _ | .tagDirective _ _ | .otherDirective => return true
  | _ => return false

/-- Takes the only document of a text; a text without a document has none. -/
def document (fuel : Nat) : Read (Option Node) := do
  if ← isAt [.streamEnd] then return none
  let explicit := (← isAtDirective) || (← isAt [.documentStart])
  let n ← if explicit then do
      let handles ← directives fuel false []
      unless ← accept .documentStart do throw .malformed
      modify fun r => { r with handles := handles ++ standardHandles }
      if (← isAtDirective) || (← isAt [.documentStart, .documentEnd, .streamEnd]) then
        pure emptyNode
      else node true false fuel
    else node true false fuel
  if ← isNew then discard (accept .documentEnd)
  else documentEnds fuel
  unless ← isAt [.streamEnd] do throw .malformed
  return some n

end Read

/-- The node of a text, if it has one, and the version of the format that the text asks for. -/
def Node.ofText (t : Text) : Except Error (Option Node × Version) := do
  let (tokens, version) ← tokens t
  let reading : Reading := ⟨tokens, [], Read.standardHandles, version⟩
  let (n?, _) ← (Read.document (4 * tokens.length + 16)).run reading
  return (n?, version)

end Jarsmith.Yaml

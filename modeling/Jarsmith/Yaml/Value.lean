import Jarsmith.Document.Basic
import Jarsmith.Yaml.Node.Parser

/-!
# The document of a YAML text

Every node stands for a value of a document. The keys of a mapping must differ, except that entries
which are merged may be overridden. A sequence that is a key is made unchangeable; what can be
changed in other ways is no key.
-/

namespace Jarsmith.Yaml

/-- The six bits of a letter of base 64. -/
def base64Value? (c : CodePoint) : Option Nat :=
  if 0x41 ≤ c ∧ c ≤ 0x5A then some (c - 0x41)
  else if 0x61 ≤ c ∧ c ≤ 0x7A then some (c - 0x47)
  else if c.isDigit then some (c + 4)
  else if c = 0x2B then some 62
  else if c = 0x2F then some 63
  else none

/-- The bytes of four letters of base 64, or of two or three at the end. -/
def base64Bytes : List Nat → Option Bytes
  | a :: b :: c :: d :: rest => do
    let n := ((a * 64 + b) * 64 + c) * 64 + d
    return Bytes.ofBig 3 n ++ (← base64Bytes rest)
  | [a, b, c] => some ((Bytes.ofBig 3 (((a * 64 + b) * 64 + c) * 64)).take 2)
  | [a, b] => some ((Bytes.ofBig 3 ((a * 64 + b) * 4096)).take 1)
  | [_] => none
  | [] => some []

/-- The bytes that a text in base 64 writes. Letters of no meaning are skipped, and the padding at
the end must be there. -/
def readBinary (t : Text) : Except Error Bytes := do
  if t.any (0x7F < ·) then throw .malformed
  let letters := t.filterMap base64Value?
  let padding := (t.filter (· = 0x3D)).length
  match base64Bytes letters with
  | some bytes =>
    if (letters.length + padding) % 4 = 0 ∨ letters.length % 4 = 0 then return bytes
    else throw .malformed
  | none => throw .malformed

/-- The value of a scalar with the given tag. -/
def scalarValue (v : Version) (tag : Tag) (t : Text) : Except Error Document :=
  match tag with
  | .null => .ok .null
  | .bool => (readBool t).map .bool
  | .int => (readInteger v t).map .int
  | .float => (readFloat v t).map .float
  | .binary => (readBinary t).map .bytes
  | .timestamp => (readTimestamp t).map fun
    | .inl day => .day day
    | .inr time => .timestamp time
  | .text => .ok (.text t)
  | _ => .error .malformed

/-- The number that a truth value or a number stands for in comparisons. -/
def comparable? : Document → Option Binary64
  | .bool b => some (.ofInt (if b then 1 else 0))
  | .int n => if (Binary64.ofInt n).toInt? = some n then some (.ofInt n) else none
  | .float x => if x.toInt? = some 0 then some (.ofInt 0) else some x
  | _ => none

mutual

/-- Two keys are the same. Numbers and truth values are compared by their numbers, and what is no
number differs from everything. -/
def sameKey (a b : Document) : Bool :=
  match a, b with
  | .tuple as, .tuple bs => sameKeys as bs
  | a, b =>
    match comparable? a, comparable? b with
    | some x, some y => x != .nan && x == y
    | _, _ => a == b

/-- Two sequences of keys are the same. -/
def sameKeys : List Document → List Document → Bool
  | [], [] => true
  | a :: as, b :: bs => sameKey a b && sameKeys as bs
  | _, _ => false

end

/-- What is said of a key that holds a part that may change. -/
def changeable {α : Type} (d : Document) : Except Error α :=
  .error (.noSuchValue .type (("unhashable type: '" : Text) ++ d.typeName ++ ("'" : Text)))

/-- A part of a key, which may not change. -/
def checkFixed : Document → Except Error Unit
  | d@(.list _) | d@(.mapping _) | d@(.set _) => changeable d
  | _ => .ok ()

/-- The value of a node as a key. -/
def asKey (d : Document) : Except Error Document :=
  match d with
  | .list items => do
    items.forM checkFixed
    return .tuple items
  | .mapping _ | .set _ => .error .malformed
  | d => .ok d

/-- Puts an entry at the end, or its value in the stead of the one that its key has. -/
def putEntry (entries : List (Document × Document)) (entry : Document × Document) :
    List (Document × Document) :=
  if entries.any fun e => sameKey e.1 entry.1 then
    entries.map fun e => if sameKey e.1 entry.1 then (e.1, entry.2) else e
  else entries ++ [entry]

/-- The keys of the entries differ. -/
def keysDiffer : List (Document × Document) → Bool
  | [] => true
  | e :: entries => !(entries.any fun f => sameKey e.1 f.1) && keysDiffer entries

/-- The entries of a mapping. Keys may be repeated only if entries were merged. -/
def entriesOf (merged own : List (Document × Document)) :
    Except Error (List (Document × Document)) :=
  if merged.isEmpty then
    if keysDiffer own then .ok own else .error .malformed
  else .ok ((merged ++ own).foldl putEntry [])

/-- The value of a mapping with the given tag. -/
def mappingValue (tag : Tag) (entries : List (Document × Document)) : Except Error Document :=
  match tag with
  | .mapping => .ok (.mapping entries)
  | .set => .ok (.set (entries.map Prod.fst))
  | _ => .error .malformed

mutual

/-- The value of a node. -/
def valueOf (v : Version) : Node → Except Error Document
  | .scalar tag t => scalarValue v tag t
  | .sequence tag items => do
    match tag with
    | .sequence => return .list (← valuesOf v items)
    | .pairs => return .list ((← pairsOf v items).map fun (key, value) => .tuple [key, value])
    | .orderedMapping =>
      let entries ← pairsOf v items
      let entries ← entries.mapM fun (key, value) => return (← asKey key, value)
      return .mapping (← entriesOf [] entries)
    | _ => throw .malformed
  | .mapping tag merged own => do
    let merged ← entryValuesOf v merged
    let own ← entryValuesOf v own
    mappingValue tag (← entriesOf merged own)

/-- The values of nodes. -/
def valuesOf (v : Version) : List Node → Except Error (List Document)
  | [] => return []
  | n :: ns => return (← valueOf v n) :: (← valuesOf v ns)

/-- The keys and values of entries. -/
def entryValuesOf (v : Version) : List (Node × Node) → Except Error (List (Document × Document))
  | [] => return []
  | (key, value) :: entries => do
    let key ← asKey (← valueOf v key)
    let value ← valueOf v value
    return (key, value) :: (← entryValuesOf v entries)

/-- The keys and values of mappings that have one entry each. -/
def pairsOf (v : Version) : List Node → Except Error (List (Document × Document))
  | [] => return []
  | n :: ns =>
    match n with
    | .mapping _ [] [(key, value)] =>
      return (← valueOf v key, ← valueOf v value) :: (← pairsOf v ns)
    | _ => throw .malformed

end

/-- The document of a text; a text without a document stands for nothing. -/
def documentOf (t : Text) : Except Error Document := do
  match ← Node.ofText t with
  | (some n, v) => valueOf v n
  | (none, _) => return .null

end Jarsmith.Yaml

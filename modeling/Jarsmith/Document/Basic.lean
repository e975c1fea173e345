import Jarsmith.Bytes.Field
import Jarsmith.Decimal.Shortest
import Jarsmith.Document.Time

/-!
# Documents

The values of which a configuration document is made. A mapping keeps the order of its keys, which
may be any values; a sequence that is a key is a `tuple`, so that keys never change. `shown` is how
messages show a value, `plain` how tables and keys do, and `typeName` names its type.
-/

namespace Jarsmith

/-- A value of a document. -/
inductive Document where
  | null
  | bool (b : Bool)
  | int (n : Int)
  | float (x : Binary64)
  | text (t : Text)
  | bytes (b : Bytes)
  | day (d : Day)
  | timestamp (t : Timestamp)
  | list (items : List Document)
  | tuple (items : List Document)
  | set (items : List Document)
  | mapping (entries : List (Document × Document))

namespace Document

mutual

/-- Whether two values are written the same, with the same types. -/
def same : Document → Document → Bool
  | null, null => true
  | bool a, bool b => a == b
  | int a, int b => a == b
  | float a, float b => a == b
  | text a, text b => a == b
  | bytes a, bytes b => a == b
  | day a, day b => a == b
  | timestamp a, timestamp b => a == b
  | list a, list b => sameItems a b
  | tuple a, tuple b => sameItems a b
  | set a, set b => sameItems a b
  | mapping a, mapping b => sameEntries a b
  | _, _ => false

/-- Whether two sequences of values are written the same. -/
def sameItems : List Document → List Document → Bool
  | [], [] => true
  | a :: as, b :: bs => same a b && sameItems as bs
  | _, _ => false

/-- Whether two sequences of entries are written the same. -/
def sameEntries : List (Document × Document) → List (Document × Document) → Bool
  | [], [] => true
  | (k, v) :: as, (l, w) :: bs => same k l && same v w && sameEntries as bs
  | _, _ => false

end

instance : BEq Document := ⟨same⟩

/-- How a truth value is shown. -/
def shownBool (b : Bool) : Text := if b then "True" else "False"

/-- Items between brackets; a single item of a tuple is followed by a comma. -/
def bracketed (opening closing : Text) (trailing : Bool) (items : List Text) : Text :=
  opening ++ Text.joinWith ", " items ++ (if trailing && items.length = 1 then [0x2C] else []) ++
    closing

mutual

/-- How a value is shown in messages. -/
def shown : Document → Text
  | null => "None"
  | bool b => shownBool b
  | int n => Text.ofInt n
  | float x => x.toText
  | text t => Text.quoted t
  | bytes b => Text.quotedBytes b
  | day d => d.shown
  | timestamp t => t.shown
  | list items => bracketed "[" "]" false (shownItems items)
  | tuple items => bracketed "(" ")" true (shownItems items)
  | set items => if items.isEmpty then "set()" else bracketed "\x7b" "\x7d" false (shownItems items)
  | mapping entries => bracketed "\x7b" "\x7d" false (shownEntries entries)

/-- How the items of a sequence are shown. -/
def shownItems : List Document → List Text
  | [] => []
  | item :: items => shown item :: shownItems items

/-- How the entries of a mapping are shown. -/
def shownEntries : List (Document × Document) → List Text
  | [] => []
  | (key, value) :: entries => (shown key ++ (": " : Text) ++ shown value) :: shownEntries entries

end

/-- A value without quotes around it if it is a text, a day or a time. -/
def plain : Document → Text
  | text t => t
  | day d => d.toText
  | timestamp t => t.toTextWith 0x20
  | d => d.shown

/-- The name of the type of a value. -/
def typeName : Document → Text
  | null => "NoneType"
  | bool _ => "bool"
  | int _ => "int"
  | float _ => "float"
  | text _ => "str"
  | bytes _ => "bytes"
  | day _ => "date"
  | timestamp _ => "datetime"
  | list _ => "list"
  | tuple _ => "tuple"
  | set _ => "set"
  | mapping _ => "dict"

/-- The value of the key that is the text `key`. -/
def lookupText? (entries : List (Document × Document)) (key : Text) : Option Document :=
  (entries.find? fun entry => entry.1 == text key).map Prod.snd

end Document

end Jarsmith

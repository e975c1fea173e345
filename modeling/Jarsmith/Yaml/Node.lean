import Jarsmith.Text.Basic

/-!
# The nodes of a YAML document

A node is a scalar, a sequence or a mapping with a tag that tells how to take it. The entries that a
mapping takes over from others by the merge key are kept apart from its own.
-/

namespace Jarsmith.Yaml

/-- How a node is to be taken. -/
inductive Tag where
  | null
  | bool
  | int
  | float
  | binary
  | timestamp
  | text
  | sequence
  | mapping
  | set
  | pairs
  | orderedMapping
  /-- The key whose value is merged into the mapping. -/
  | merge
  /-- The key of the value that a mapping may stand for. -/
  | value
  | unknown
  deriving DecidableEq, Repr

/-- The names of the tags of the standard. -/
def Tag.names : List (Text × Tag) :=
  [("null", null), ("bool", bool), ("int", int), ("float", float), ("binary", binary),
    ("timestamp", timestamp), ("str", text), ("seq", sequence), ("map", mapping), ("set", set),
    ("pairs", pairs), ("omap", orderedMapping), ("merge", merge), ("value", value)]

/-- What the tags of the standard begin with. -/
def Tag.standardPart : Text := "tag:yaml.org,2002:"

/-- The tag of a full name. -/
def Tag.ofName (name : Text) : Tag :=
  ((Text.dropStart? standardPart name).bind fun short => names.lookup short).getD unknown

/-- A node of a document. -/
inductive Node where
  | scalar (tag : Tag) (text : Text)
  | sequence (tag : Tag) (items : List Node)
  | mapping (tag : Tag) (merged own : List (Node × Node))
  deriving Repr

end Jarsmith.Yaml

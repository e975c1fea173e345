import Jarsmith.Yaml.Error

/-!
# The tokens of YAML

A text is first cut into tokens. Besides the marks that are written, there are tokens for what the
layout says: where a block of entries begins and ends, and that a scalar before a colon is a key.
-/

namespace Jarsmith.Yaml

/-- A version of the format. -/
structure Version where
  major : Nat
  minor : Nat
  deriving DecidableEq, Repr

/-- The version whose rules hold unless a directive asks for another one. -/
def Version.standard : Version := ⟨1, 2⟩

/-- The version before the standard one, in which more plain scalars are truth values and
numbers. -/
def Version.old : Version := ⟨1, 1⟩

/-- How a scalar is written. -/
inductive Style where
  | plain
  | quoted
  | block
  deriving DecidableEq, Repr

/-- A piece of a YAML text. -/
inductive Token where
  | streamEnd
  | versionDirective (version : Version)
  | tagDirective (handle uri : Text)
  | otherDirective
  | documentStart
  | documentEnd
  | blockSequenceStart
  | blockMappingStart
  | blockEnd
  | flowSequenceStart
  | flowSequenceEnd
  | flowMappingStart
  | flowMappingEnd
  | blockEntry
  | flowEntry
  | key
  | value
  | anchorRef (name : Text)
  | anchor (name : Text)
  /-- A tag, as a handle, which verbatim tags lack, and a rest. -/
  | tag (handle? : Option Text) (rest : Text)
  | scalar (style : Style) (text : Text)
  deriving DecidableEq, Repr

end Jarsmith.Yaml

import Jarsmith.Text.Blank

/-!
# Selectors

A task says by selectors on which artifacts it works: on all of them, on those of a group, or on one
artifact of a group. In texts the two names are joined by a colon, and a star stands for any name.
-/

namespace Jarsmith

/-- Which artifacts a task is for. -/
inductive Selector where
  | all
  | group (group : Text)
  | artifact (group artifact : Text)
  deriving DecidableEq, Repr

namespace Selector

/-- The colon between the names of a group and an artifact. -/
abbrev colon : CodePoint := 0x3A

/-- The star that stands for any name. -/
abbrev star : CodePoint := 0x2A

/-- What a name in a selector may consist of. -/
def isNamePoint (c : CodePoint) : Bool := c != colon && c != star && !c.isBlank

/-- A name that may stand in a selector. -/
def isName (t : Text) : Bool := !t.isEmpty && t.all isNamePoint

/-- The selector that a text without blanks at its ends writes. -/
def ofText? (t : Text) : Option Selector := do
  let (first, second) ← Text.cutFirst? colon t
  if first = [star] ∧ second = [star] then some all
  else if isName first then
    if second = [star] then some (group first)
    else if isName second then some (artifact first second)
    else none
  else none

/-- The text of a selector. -/
def toText : Selector → Text
  | all => [star, colon, star]
  | group g => g ++ [colon, star]
  | artifact g a => g ++ colon :: a

/-- The selector takes the artifact `artifactId` of the group `groupId`. -/
def accepts (groupId artifactId : Text) : Selector → Bool
  | all => true
  | group g => g = groupId
  | artifact g a => g = groupId && a = artifactId

end Selector

end Jarsmith

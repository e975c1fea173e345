import Jarsmith.Text.Basic

/-!
# What can be wrong with a YAML text

A text that breaks a rule of the format is `malformed`, whatever the rule. Some texts keep the
rules, but write a value that does not exist: a day that no calendar has, a number without digits.
-/

namespace Jarsmith.Yaml

/-- The ways in which a value may not exist. -/
inductive Flaw where
  /-- The value is out of the range of its type. -/
  | value
  /-- A number is too large for a machine word. -/
  | overflow
  /-- A key holds a part that may change. -/
  | type
  /-- A name is not in a table. -/
  | key
  /-- A place is outside a text. -/
  | index
  deriving DecidableEq, Repr

/-- What is wrong with a YAML text. -/
inductive Error where
  | malformed
  | noSuchValue (flaw : Flaw) (reason : Text)
  deriving DecidableEq, Repr

/-- What is said of a text that breaks a rule of the format. -/
def Error.message : Error → Text
  | malformed => "malformed"
  | noSuchValue _ reason => reason

end Jarsmith.Yaml

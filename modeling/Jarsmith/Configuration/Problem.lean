import Jarsmith.Document.Json

/-!
# What can be wrong with a configuration document

A problem says what is wrong, where, and with which value. `Checked` collects problems: parts of a
document are checked side by side, and all problems are kept, in the order of the parts.
-/

namespace Jarsmith

/-- A step on the way from the root of a document to a part of it. -/
inductive Step where
  | key (name : Text)
  | number (n : Int)
  deriving DecidableEq, Repr

/-- The text of a step. -/
def Step.toText : Step → Text
  | key name => name
  | number n => Text.ofInt n

/-- The ways in which a value can be wrong. -/
inductive Violation where
  /-- A required field is not there. -/
  | missing
  /-- No field has the name. -/
  | unknownKey
  /-- A key is no text. -/
  | badKey
  /-- The value is no mapping, as the named part needs it. -/
  | notMapping (part : Text)
  | notList
  /-- A list that must have an item is empty. -/
  | noItem
  | notText
  /-- The value holds code points or bytes that make no text. -/
  | badText
  | emptyText
  | notPath
  | notTransformer
  | notInteger
  | badIntegerText
  | fractional
  | notFinite
  /-- A floating point number is too large to be taken as an integer. -/
  | tooLarge
  | below (least : Int)
  | above (greatest : Int)
  | notBool
  | badBool
  /-- A rule of the part itself is broken. -/
  | rejected (reason : Text)
  /-- There is no such field to be assigned. -/
  | noField (name : Text)
  deriving DecidableEq, Repr

namespace Violation

/-- The code of a violation. -/
def code : Violation → Text
  | missing => "missing"
  | unknownKey => "extra_forbidden"
  | badKey => "invalid_key"
  | notMapping _ => "model_type"
  | notList => "list_type"
  | noItem => "too_short"
  | notText => "string_type"
  | badText => "string_unicode"
  | emptyText => "string_too_short"
  | notPath => "path_type"
  | notTransformer => "enum"
  | notInteger => "int_type"
  | badIntegerText => "int_parsing"
  | fractional => "int_from_float"
  | notFinite => "finite_number"
  | tooLarge => "int_parsing_size"
  | below _ => "greater_than_equal"
  | above _ => "less_than_equal"
  | notBool => "bool_type"
  | badBool => "bool_parsing"
  | rejected _ => "value_error"
  | noField _ => "no_such_attribute"

/-- The text of a violation. -/
def message : Violation → Text
  | missing => "Field required"
  | unknownKey => "Extra inputs are not permitted"
  | badKey => "Keys should be strings"
  | notMapping part =>
    ("Input should be a valid dictionary or instance of " : Text) ++ part
  | notList => "Input should be a valid list"
  | noItem => "List should have at least 1 item after validation, not 0"
  | notText => "Input should be a valid string"
  | badText => "Input should be a valid string, unable to parse raw data as a unicode string"
  | emptyText => "String should have at least 1 character"
  | notPath => "Input is not a valid path for <class 'pathlib.Path'>"
  | notTransformer => "Input should be 'remove_debug_information'"
  | notInteger => "Input should be a valid integer"
  | badIntegerText => "Input should be a valid integer, unable to parse string as an integer"
  | fractional => "Input should be a valid integer, got a number with a fractional part"
  | notFinite => "Input should be a finite number"
  | tooLarge => "Unable to parse input string as an integer, exceeded maximum size"
  | below least => ("Input should be greater than or equal to " : Text) ++ Text.ofInt least
  | above greatest => ("Input should be less than or equal to " : Text) ++ Text.ofInt greatest
  | notBool => "Input should be a valid boolean"
  | badBool => "Input should be a valid boolean, unable to interpret input"
  | rejected reason => ("Value error, " : Text) ++ reason
  | noField name => ("Object has no attribute " : Text) ++ (0x27 :: name ++ [0x27])

end Violation

/-- Something that is wrong with a document. -/
structure Problem where
  violation : Violation
  location : List Step
  input : Document

namespace Problem

/-- The problem as seen from one step further out. -/
def under (step : Step) (p : Problem) : Problem := { p with location := step :: p.location }

/-- The lines that report a problem: where it is and what it is, and the value unless that is
nothing. -/
def lines (p : Problem) : List Text :=
  let place := Text.joinWith "." (p.location.map Step.toText)
  let first := (if place.isEmpty then ("(根)" : Text) else place) ++ (": " : Text) ++
    p.violation.message
  match p.input with
  | .null | .text [] => [first]
  | input => [first, ("    取值: " : Text) ++ input.shown]

/-- A problem as a document. -/
def toDocument (p : Problem) : Document :=
  let step : Step → Document
    | .key name => .text name
    | .number n => .int n
  .mapping [
    (.text "type", .text p.violation.code),
    (.text "loc", .list (p.location.map step)),
    (.text "msg", .text p.violation.message),
    (.text "input", p.input)]

/-- The report of problems. -/
def report (ps : List Problem) : Text := Text.joinWith [0x0A] (ps.flatMap lines)

/-- The report of problems as JSON. -/
def reportJson (ps : List Problem) : Text := (Document.list (ps.map toDocument)).toJson

end Problem

/-- A value, or all problems that stand against it. -/
inductive Checked (α : Type) where
  | valid (value : α)
  | invalid (problems : List Problem)

namespace Checked

/-- The problems; none if there is a value. -/
def problems {α : Type} : Checked α → List Problem
  | valid _ => []
  | invalid ps => ps

/-- The value, if there is no problem. -/
def value? {α : Type} : Checked α → Option α
  | valid a => some a
  | invalid _ => none

/-- Changes the value. -/
def map {α β : Type} (f : α → β) : Checked α → Checked β
  | valid a => valid (f a)
  | invalid ps => invalid ps

/-- Puts a function and its argument together; the problems of both are kept. -/
def apply {α β : Type} (f : Checked (α → β)) (x : Checked α) : Checked β :=
  match f, x with
  | valid f, valid a => valid (f a)
  | f, x => invalid (f.problems ++ x.problems)

instance : Applicative Checked where
  pure := valid
  map := map
  seq f x := apply f (x ())

/-- Goes on with the value. Problems end the check. -/
def andThen {α β : Type} (x : Checked α) (f : α → Checked β) : Checked β :=
  match x with
  | valid a => f a
  | invalid ps => invalid ps

/-- A single problem with a value at hand. -/
def wrong {α : Type} (v : Violation) (input : Document) : Checked α := invalid [⟨v, [], input⟩]

/-- The check as seen from one step further out. -/
def under {α : Type} (step : Step) : Checked α → Checked α
  | valid a => valid a
  | invalid ps => invalid (ps.map (Problem.under step))

/-- Checks the items of a list, which are numbered from `first` on. -/
def items {α : Type} (check : Document → Checked α) : (first : Nat) → List Document →
    Checked (List α)
  | _, [] => valid []
  | first, d :: ds =>
    apply (map List.cons ((check d).under (.number first))) (items check (first + 1) ds)

end Checked

end Jarsmith

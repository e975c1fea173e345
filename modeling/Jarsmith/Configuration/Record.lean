import Jarsmith.Configuration.Value

/-!
# Records

A mapping whose keys are the names of fields. A field may be written in two spellings, with
underscores or in camel case; the second goes first if both are there. Every key that is not the
spelling in use of some field is a problem of its own, after those of the fields.
-/

namespace Jarsmith

/-- A mapping that is read as a record. -/
structure Record where
  entries : List (Document × Document)

namespace Record

/-- A name in camel case: underscores are dropped, and the letters after them are capitals. -/
def camelCase : (name : Text) → Text
  | [] => []
  | [c] => [c]
  | 0x5F :: c :: t => (if 0x61 ≤ c ∧ c ≤ 0x7A then c - 0x20 else c) :: camelCase t
  | c :: t => c :: camelCase t

/-- The mapping as a document. -/
def whole (r : Record) : Document := .mapping r.entries

/-- The spelling under which a field is given, and its value. -/
def given? (r : Record) (field : Text) : Option (Text × Document) :=
  match Document.lookupText? r.entries (camelCase field) with
  | some d => some (camelCase field, d)
  | none => (Document.lookupText? r.entries field).map (field, ·)

/-- A field that may be left out. -/
def optional {α : Type} (r : Record) (field : Text) (ifMissing : α)
    (check : Document → Checked α) : Checked α :=
  match r.given? field with
  | some (spelling, d) => (check d).under (.key spelling)
  | none => .valid ifMissing

/-- A field that must be there. -/
def required {α : Type} (r : Record) (field : Text) (check : Document → Checked α) : Checked α :=
  match r.given? field with
  | some (spelling, d) => (check d).under (.key spelling)
  | none => (Checked.wrong .missing r.whole).under (.key (camelCase field))

/-- The step to the value of a key that is no text. -/
def keyStep : Document → Step
  | .bool b => .number (if b then 1 else 0)
  | .int n => if Document.isWord n then .number n else .key (Text.ofInt n)
  | d => .key d.plain

/-- The problem of an entry that is not one of the spellings in use, if it has one. -/
def keyProblem? (used : List Text) : Document × Document → Option Problem
  | (.text key, d) => if key ∈ used then none else some ⟨.unknownKey, [.key key], d⟩
  | (key, _) => some ⟨.badKey, [keyStep key], key⟩

/-- Adds the problems of the keys that no field uses. -/
def complete {α : Type} (r : Record) (fields : List Text) (x : Checked α) : Checked α :=
  let used := fields.filterMap fun field => (r.given? field).map Prod.fst
  match x, r.entries.filterMap (keyProblem? used) with
  | x, [] => x
  | x, ps => .invalid (x.problems ++ ps)

end Record

/-- Reads a value as a record, for the named part of a configuration. -/
def Document.checkRecord {α : Type} (d : Document) (part : Text) (fields : List Text)
    (check : Record → Checked α) : Checked α :=
  match d with
  | .mapping entries =>
    let r : Record := ⟨entries⟩
    r.complete fields (check r)
  | _ => .wrong (.notMapping part) d

/-- A value that may be nothing. -/
def Document.checkOption {α : Type} (check : Document → Checked α) (d : Document) :
    Checked (Option α) :=
  match d with
  | .null => .valid none
  | d => (check d).map some

end Jarsmith

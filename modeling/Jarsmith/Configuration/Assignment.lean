import Jarsmith.Configuration.Validation

/-!
# Assignments to fields of configurations

A field of a configuration, or of one of its parts, may be given a new value, which is checked as it
is when a configuration is read. The rule on artifacts that occur twice is looked at only when a
field of the configuration itself is assigned, and after the assignment: the new value stays then,
though the assignment counts as failed.
-/

namespace Jarsmith

/-- An assignment to a field that does not exist. -/
def noField {α : Type} (name : Text) : Checked α :=
  (Checked.wrong (.noField name) .null).under (.key name)

/-- Assigns a field of an artifact. -/
def Artifact.assign (a : Artifact) (field : Text) (d : Document) : Checked Artifact :=
  if field = "group_id" then
    ((checkIdentifier d).under (.key field)).map fun t => { a with groupId := t }
  else if field = "artifact_id" then
    ((checkIdentifier d).under (.key field)).map fun t => { a with artifactId := t }
  else if field = "version" then
    (d.checkName.under (.key field)).map fun t => { a with version := t }
  else if field = "type" then
    (d.checkText.under (.key field)).map fun t => { a with type := t }
  else if field = "file" then
    (d.checkPath.under (.key field)).map fun p => { a with file := p }
  else noField field

/-- Assigns a field of a minification task. -/
def MinifyTask.assign (t : MinifyTask) (field : Text) (d : Document) : Checked MinifyTask :=
  if field = Selector.field then
    ((Selector.checkAll d).under (.key field)).map fun ss => { t with selectors := ss }
  else if field = "entry_points" then
    ((checkNames d).under (.key field)).map fun ns => { t with entryPoints := ns }
  else if field = "property_entry_points" then
    ((checkNames d).under (.key field)).map fun ns => { t with propertyMembers := ns }
  else if field = "service_entry_points" then
    ((checkNames d).under (.key field)).map fun ns => { t with serviceMembers := ns }
  else noField field

/-- Assigns a field of a modification task. -/
def ModifyTask.assign (t : ModifyTask) (field : Text) (d : Document) : Checked ModifyTask :=
  if field = Selector.field then
    ((Selector.checkAll d).under (.key field)).map fun ss => { t with selectors := ss }
  else if field = "transformers" then
    ((d.checkListOf checkTransformer).under (.key field)).map fun ts =>
      { t with transformers := ts }
  else noField field

namespace Configuration

/-- Gives a field of the configuration itself a new value. -/
def assignField (c : Configuration) (field : Text) (d : Document) : Checked Configuration :=
  if field = "config" then
    ((checkHead d).under (.key field)).map fun n => { c with version := n }
  else if field = "project" then
    ((d.checkOption Artifact.ofDocument).under (.key field)).map fun a => { c with project? := a }
  else if field = "dependencies" then
    ((d.checkListOf Artifact.ofDocument).under (.key field)).map fun as =>
      { c with dependencies := as }
  else if field = "output_directory" then
    (d.checkPath.under (.key field)).map fun p => { c with outputDirectory := p }
  else if field = "compression_level" then
    ((checkLevel d).under (.key field)).map fun n => { c with compressionLevel := n }
  else if field = "strict_create" then
    (d.checkBool.under (.key field)).map fun b => { c with strictCreate := b }
  else if field = "minify" then
    ((d.checkOption MinifyTask.ofDocument).under (.key field)).map fun t => { c with minify? := t }
  else if field = "modify" then
    ((d.checkOption ModifyTask.ofDocument).under (.key field)).map fun t => { c with modify? := t }
  else noField field

/-- Assigns a field of a part that may not be there; without it nothing is assigned. -/
def assignPart {α : Type} (part? : Option α) (assign : α → Checked α) : Checked (Option α) :=
  match part? with
  | some part => (assign part).map some
  | none => .valid none

/-- Assigns a field of the dependency at an index. -/
def assignDependency (as : List Artifact) (index : Nat) (field : Text) (d : Document) :
    Checked (List Artifact) :=
  match as[index]? with
  | some a => (a.assign field d).map fun a => as.set index a
  | none => .valid as

/-- Assigns a field of a part of the configuration. -/
def assignNested (c : Configuration) (part : Text) (index : Nat) (field : Text) (d : Document) :
    Checked Configuration :=
  if part = "config" then
    if field = "version" then
      ((checkVersion d).under (.key field)).map fun n => { c with version := n }
    else noField field
  else if part = "project" then
    (assignPart c.project? (·.assign field d)).map fun a => { c with project? := a }
  else if part = "dependencies" then
    (assignDependency c.dependencies index field d).map fun as => { c with dependencies := as }
  else if part = "minify" then
    (assignPart c.minify? (·.assign field d)).map fun t => { c with minify? := t }
  else if part = "modify" then
    (assignPart c.modify? (·.assign field d)).map fun t => { c with modify? := t }
  else noField part

/-- Where an assignment goes: to a field of the configuration, or to one of a part of it. -/
inductive Target where
  | field (name : Text)
  | nested (part : Text) (index : Nat) (field : Text)
  deriving DecidableEq, Repr

/-- The index that digits write. -/
def indexOf (t : Text) : Nat := t.foldl (fun n c => n * 10 + (c - 0x30)) 0

/-- The target that a text with dots writes. -/
def Target.ofText (t : Text) : Target :=
  match t.splitOn 0x2E with
  | [part, name] => .nested part 0 name
  | [part, index, name] => .nested part (indexOf index) name
  | _ => .field t

/-- The configuration after an assignment, and the problems of the assignment. -/
def assign (c : Configuration) (target : Target) (d : Document) : Configuration × List Problem :=
  match target with
  | .nested part index field =>
    match c.assignNested part index field d with
    | .valid c => (c, [])
    | .invalid ps => (c, ps)
  | .field name =>
    match c.assignField name d with
    | .valid c => (c, (checkDistinct d c).problems)
    | .invalid ps => (c, ps)

end Configuration

end Jarsmith

import Jarsmith.Configuration.Model
import Jarsmith.Fault
import Jarsmith.Text.Blank

/-!
# Findings of a validation

Validating a configuration file comes to a list of findings, which is empty if the file holds a
configuration. A file that cannot be read has one finding, which is of the file as a whole.
-/

namespace Jarsmith.Configuration

/-- Something that validation finds wrong with a file. -/
inductive Finding where
  | problem (p : Problem)
  | file (message : Text)

namespace Finding

/-- Where in the document the finding is. -/
def location : Finding → List Step
  | problem p => p.location
  | file _ => []

/-- What is wrong. -/
def message : Finding → Text
  | problem p => p.violation.message
  | file message => message

/-- The value that is wrong. -/
def value : Finding → Document
  | problem p => p.input
  | file _ => .null

/-- A finding as a document. -/
def toDocument : Finding → Document
  | problem p => p.toDocument
  | file message => .mapping [
      (.text "loc", .list []), (.text "msg", .text message), (.text "type", .text "config_error")]

end Finding

namespace FileError

/-- The error is a finding of validation. A value that does not exist is none: it ends
validation. -/
def isFinding : FileError → Bool
  | noSuchValue _ _ => false
  | _ => true

/-- The findings that an error comes to. -/
def findings : FileError → List Finding
  | invalid ps => ps.map .problem
  | e => [.file e.message]

/-- The lines that report an error. -/
def lines : FileError → List Text
  | invalid ps => Text.lines (Problem.report ps)
  | e => [e.message]

end FileError

/-- The findings of a validation that came to a configuration or to a fault, and the lines that
report them. A fault that is no finding stays one. -/
def verdict : Except Fault Configuration → Except Fault (List Finding × List Text)
  | .ok _ => .ok ([], [])
  | .error (.configuration e) =>
    if e.isFinding then .ok (e.findings, e.lines) else .error (.configuration e)
  | .error f => .error f

end Jarsmith.Configuration

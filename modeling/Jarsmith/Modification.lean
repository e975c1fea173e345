import Jarsmith.ClassFile.DebugInformation
import Jarsmith.ClassFile.Decode
import Jarsmith.ClassFile.Encode
import Jarsmith.Configuration.Model
import Jarsmith.Fault
import Jarsmith.Log.Event

/-!
# The transformation of classes

A modification replaces the data of class members by a function, its editor. That is either handed
in, or made of the task's transformers: the data are read as a class file, the transformers are
applied one after another, and the result is written. Without transformers the data stay as they
are.
-/

namespace Jarsmith

/-- A change of a class file, which may fail. -/
abbrev ClassChange := ClassFile → Except Fault ClassFile

/-- The change that a transformer makes. -/
def Transformer.change : Transformer → ClassChange
  | .removeDebugInformation => fun c => .ok c.removeDebugInformation

/-- What an editor gives: bytes, or a value of another type, which cannot be stored. -/
inductive Edited where
  | bytes (data : Bytes)
  | other (type : Text)
  deriving DecidableEq, Repr

/-- A function from the data of a class to what takes their place. -/
abbrev Editor := Bytes → Except Fault Edited

/-- Reads a class file, applies changes to it, and writes it. -/
def applyChanges (changes : List ClassChange) (data : Bytes) : Except Fault Bytes := do
  let c ← (ClassFile.decode data).mapError .classFile
  let c ← changes.foldlM (fun c change => change c) c
  match c.encode? with
  | some data => return data
  | none => throw .fieldOverflow

/-- The function on data that a chain of changes makes. Every failure is one of the transformation;
without changes the data are not even read. -/
def changeData (changes : List ClassChange) (data : Bytes) : Except Fault Bytes :=
  if changes.isEmpty then .ok data
  else (applyChanges changes data).mapError (.transformation "类文件变换失败")

/-- The editor of a chain of changes. -/
def editorOf (changes : List ClassChange) : Editor := fun data =>
  (changeData changes data).map .bytes

/-- A task, and its editor if there is one yet. -/
structure Modification where
  task : ModifyTask
  editor? : Option Editor

namespace Modification

/-- The editor that the transformers of the task make. -/
def taskEditor (m : Modification) : Editor := editorOf (m.task.transformers.map (·.change))

/-- The names of the transformers as reports list them. -/
def labels (ts : List Transformer) : Text :=
  0x5B :: Text.joinWith ", " (ts.map fun t => Text.quoted t.label) ++ ("]" : Text)

/-- Makes the editor, unless there is one. Also gives it, and the events of making it. -/
def prepare (m : Modification) : Modification × Editor × List Log.Event :=
  match m.editor? with
  | some r => (m, r, [])
  | none =>
    let r := m.taskEditor
    ({ m with editor? := some r }, r,
      [Log.event .debug .modify (("变换器链: " : Text) ++ labels m.task.transformers)])

/-- The editor, which must have been made or handed in. -/
def get (m : Modification) : Except Fault Editor :=
  match m.editor? with
  | some r => .ok r
  | none => .error (.notPrepared "create_modify_function")

/-- The task is for the artifact. -/
def accepts (m : Modification) (a : Artifact) : Bool := m.task.accepts a

end Modification

end Jarsmith

import Jarsmith.FileSystem.Path
import Jarsmith.Log.Event

/-!
# The graph of classes

The nodes are the classes that the archives of a classpath define, over all archives together, and
the edges lead to the classes that they name. A class that several archives define belongs to the
first one, as a class loader would find it; the further definitions are only recorded.
-/

namespace Jarsmith

/-- A class as one archive defines it, with the classes that it names, each once. -/
structure Definition where
  name : Text
  archive : Path
  references : List Text
  deriving DecidableEq, Repr

/-- The definitions that count, in the order in which they were added, and the names and archives of
those that came too late. -/
structure ClassGraph where
  definitions : List Definition
  duplicates : List (Text × Path)
  deriving DecidableEq, Repr

namespace ClassGraph

/-- The graph without classes. -/
def empty : ClassGraph := ⟨[], []⟩

/-- The definition of a class. -/
def find? (g : ClassGraph) (name : Text) : Option Definition :=
  g.definitions.find? (·.name = name)

/-- The names of the classes. -/
def names (g : ClassGraph) : List Text := g.definitions.map (·.name)

/-- The graph defines the class. -/
def defines (g : ClassGraph) (name : Text) : Bool := g.definitions.any (·.name = name)

/-- The number of classes. -/
def size (g : ClassGraph) : Nat := g.definitions.length

/-- The number of edges, those that lead out of the graph included. -/
def edgeCount (g : ClassGraph) : Nat :=
  g.definitions.foldr (fun d n => d.references.length + n) 0

/-- Adds a definition, or records it if the class has one. -/
def add (g : ClassGraph) (d : Definition) : ClassGraph :=
  if g.defines d.name then { g with duplicates := g.duplicates ++ [(d.name, d.archive)] }
  else { g with definitions := g.definitions ++ [d] }

/-- The event of adding a definition that comes too late. -/
def duplicateEvents (g : ClassGraph) (d : Definition) : List Log.Event :=
  match g.find? d.name with
  | none => []
  | some first =>
    [Log.event .warning .scan (("类 " : Text) ++ d.name ++ (" 重复定义于 " : Text) ++
      d.archive.name ++ ("，沿用 " : Text) ++ first.archive.name ++ (" 中的定义" : Text))]

/-- Adds references to the definition of a class. -/
def extend (g : ClassGraph) (name : Text) (references : List Text) : ClassGraph :=
  { g with
    definitions := g.definitions.map fun d =>
      if d.name = name then { d with references := Text.unique (d.references ++ references) }
      else d }

end ClassGraph

end Jarsmith

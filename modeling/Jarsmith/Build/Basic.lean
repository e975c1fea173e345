import Jarsmith.Decimal.Rounding
import Jarsmith.Repackaging
import Jarsmith.Retention

/-!
# What a build works on

A build is asked for something, the request, and puts its results together, the assembly. It does so
in steps. A step is a function from the assembly before it to the one after it, with a name, a
description for readers, and the part of the progress that it covers.
-/

namespace Jarsmith.Build

/-- What is to be built, and where. -/
structure Request where
  configuration : Configuration
  outputDirectory : Path
  /-- An editor that is handed in; it goes before the transformers of the configuration. -/
  editor? : Option Editor

/-- What a build counted. -/
structure Statistics where
  archives : Nat
  repackaged : Nat
  copied : Nat
  classes : Nat
  removableClasses : Nat
  droppedMembers : Nat
  modifiedClasses : Nat
  inputSize : Nat
  outputSize : Nat
  deriving DecidableEq, Repr

/-- Nothing was counted yet. -/
def Statistics.zero : Statistics := ⟨0, 0, 0, 0, 0, 0, 0, 0, 0⟩

/-- What a build has put together so far. -/
structure Assembly where
  /-- The artifacts of the classpath, in its order. -/
  artifacts : List Artifact
  retention? : Option Retention
  modification? : Option Modification
  /-- The names of the output files, in the order of the classpath. -/
  elements : List Text
  /-- The place of the manifest, once it is written. -/
  manifest? : Option Path
  statistics : Statistics

/-- Nothing was put together yet. -/
def Assembly.empty : Assembly := ⟨[], none, none, [], none, .zero⟩

/-- A step of a build. -/
structure Step where
  name : Text
  description : Text
  stage : Log.Stage
  /-- The progress before the step, in percent. -/
  first : Int
  /-- The progress after the step, in percent. -/
  last : Int
  execute : Request → Assembly → Session Assembly

/-- Shows how far a build is, on a display that cannot fail. -/
def showProgress (activity : Text) (percent : Int) (message : Text) : Session Unit :=
  Session.show (.progress ⟨activity, percent, message⟩)

/-- The percentage at which item number `index` of `total` begins, where the items share the part
from `first` to `last`. The quotient and its multiple are floating point numbers, and the result is
cut to a whole number. -/
def percentAt (first last : Int) (index total : Nat) : Int :=
  first + ((Binary64.ofRatio false index (max 1 total)).scale (last - first).toNat).floor

/-- Executes a step. A failure is reported, and becomes the cause of the failure of the step. -/
def Step.run (s : Step) (request : Request) (assembly : Assembly) : Session Assembly :=
  tryCatch (s.execute request assembly) fun cause => do
    let fault := Fault.build s.description cause
    Session.report .error s.stage fault.message
    throw fault

end Jarsmith.Build

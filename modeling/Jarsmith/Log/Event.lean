import Jarsmith.Text.Basic

/-!
# Events

What a run reports: a text with a level, which decides whether it is shown, and possibly the stage
of the run to which it belongs.
-/

namespace Jarsmith.Log

/-- How much an event matters. A level that is not one of the five known ones counts like `info`. -/
inductive Level where
  | debug
  | info
  | success
  | warning
  | error
  | other (name : Text)
  deriving DecidableEq, Repr

namespace Level

/-- The name of a level. -/
def name : Level → Text
  | debug => "DEBUG"
  | info => "INFO"
  | success => "SUCCESS"
  | warning => "WARNING"
  | error => "ERROR"
  | other name => name

/-- The levels that are known by name. -/
def known : List Level := [debug, info, success, warning, error]

/-- The level of a name. -/
def ofName (name : Text) : Level := (known.find? (·.name = name)).getD (other name)

/-- The rank of a level: success ranks like information. -/
def rank : Level → Nat
  | debug => 0
  | info | success | other _ => 1
  | warning => 2
  | error => 3

/-- Whether events of a level are shown where `threshold` is the least level to be shown. -/
def isShown (level threshold : Level) : Bool := threshold.rank ≤ level.rank

end Level

/-- The stages of a run. -/
inductive Stage where
  | resolve
  | scan
  | analyze
  | modify
  | repack
  | manifest
  | done
  | build
  | other (name : Text)
  deriving DecidableEq, Repr

/-- The name of a stage. -/
def Stage.name : Stage → Text
  | resolve => "RESOLVE"
  | scan => "SCAN"
  | analyze => "ANALYZE"
  | modify => "MODIFY"
  | repack => "REPACK"
  | manifest => "MANIFEST"
  | done => "DONE"
  | build => "BUILD"
  | other name => name

/-- A report. -/
structure Event where
  level : Level
  stage? : Option Stage
  message : Text
  deriving DecidableEq, Repr

/-- The name of the stage of an event; a stage without a name is no stage. -/
def Event.stageName? (e : Event) : Option Text :=
  (e.stage?.map Stage.name).filter fun name => !name.isEmpty

/-- The line of an event in a log file, without the time. -/
def Event.line (e : Event) : Text :=
  let level := 0x5B :: e.level.name ++ ("] " : Text)
  let stage := match e.stageName? with
    | some name => 0x5B :: name ++ ("] " : Text)
    | none => []
  level ++ stage ++ e.message

/-- An event of a stage. -/
def event (level : Level) (stage : Stage) (message : Text) : Event := ⟨level, some stage, message⟩

end Jarsmith.Log

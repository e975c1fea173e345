import Jarsmith.Console.Layout
import Jarsmith.Console.Markup
import Jarsmith.Console.Table
import Jarsmith.Log.Event

/-!
# What a run shows

Events of the log, the progress of a build, lines, and tables. Events of the level `error` go to the
standard error output, everything else to the standard output.
-/

namespace Jarsmith

/-- How far a run is, in percent, and what it is doing. -/
structure Progress where
  activity : Text
  percent : Int
  message : Text
  deriving DecidableEq, Repr

/-- What was shown to the user. -/
inductive Shown where
  | event (e : Log.Event)
  | progress (p : Progress)
  | text (t : Text)
  /-- A text whose lines are never broken. -/
  | wideText (t : Text)
  | table (t : Table)
  deriving DecidableEq, Repr

/-- The line of a progress. -/
def Progress.line (p : Progress) : Text :=
  p.activity ++ (": " : Text) ++ p.message ++ (" (" : Text) ++ Text.ofInt p.percent ++ ("%)" : Text)

/-- What stands before the message of an event on a console: the time, the level and the stage. -/
def Log.Event.heading (time : Text) (e : Log.Event) : Text :=
  let names := e.level.name :: e.stageName?.toList
  let marked := Text.joinWith " " (time :: names)
  (Markup.plain? marked).getD marked ++ [0x20]

/-- The lines of an event on a console. -/
def Log.Event.consoleLines (time : Text) (width : Nat) (e : Log.Event) : List Text :=
  match e.message.layOut width with
  | [] => [e.heading time]
  | line :: lines => (e.heading time ++ line) :: lines

namespace Shown

/-- It goes to the standard error output. -/
def isError : Shown → Bool
  | event e => e.level = .error
  | _ => false

/-- The lines that a console of the given width shows, where `time` is the time of day. -/
def lines (time : Text) (width : Nat) : Shown → List Text
  | event e => e.consoleLines time width
  | progress p => p.line.layOut width
  | text t => t.layOut width
  | wideText t => t.splitOn 0x0A
  | table t => t.lines

end Shown

end Jarsmith

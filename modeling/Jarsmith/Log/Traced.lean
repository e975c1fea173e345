import Jarsmith.Fault
import Jarsmith.Log.Event

/-!
# Computations that report

A traced computation may fail, and reports events on the way; the events before a failure are kept.
-/

namespace Jarsmith

/-- A computation that may fail and reports events. -/
abbrev Traced := ExceptT Fault (StateM (List Log.Event))

namespace Traced

/-- Reports an event. -/
def report (e : Log.Event) : Traced Unit := modify (· ++ [e])

/-- Reports events in their order. -/
def reportAll (es : List Log.Event) : Traced Unit := modify (· ++ es)

/-- The outcome of a computation and the events that it reported. -/
def outcome {α : Type} (c : Traced α) : Except Fault α × List Log.Event := c.run.run []

end Traced

end Jarsmith

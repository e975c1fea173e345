import Jarsmith.ClassGraph.Reachability
import Jarsmith.ClassGraph.Scan

/-!
# Which members are kept

A minification looks at all archives of a classpath together. A member is dropped exactly if it
defines a class that cannot be reached from the entry points; everything that is no class is kept.
-/

namespace Jarsmith

/-- What the analysis of a classpath comes to. -/
structure Retention where
  graph : ClassGraph
  entryPoints : List Text
  reachability : ClassGraph.Reachability
  deriving DecidableEq, Repr

namespace Retention

/-- Analyses a classpath. -/
def analyze (t : MinifyTask) (files : FileSystem) (archives : List Path) : Traced Retention := do
  let graph ← ClassGraph.ofArchives files archives
  let entryPoints ← (EntryPoint.Sources.ofTask t).resolve files archives
  Traced.report (Log.event .info .analyze
    (("入口点 " : Text) ++ Text.ofNat entryPoints.length ++ (" 个" : Text)))
  Traced.reportAll (entryPoints.map fun name =>
    Log.event .debug .analyze (("入口点: " : Text) ++ name))
  let reachability := graph.reachability entryPoints
  Traced.reportAll (graph.reachabilityEvents entryPoints reachability)
  return { graph, entryPoints, reachability }

/-- The member of the given name is kept. -/
def keeps (r : Retention) (member : Text) : Bool :=
  match Archive.unitName? member with
  | none => true
  | some name => !r.reachability.isRemovable name

/-- What is said where the members to keep are asked for before the analysis. -/
def notPrepared : Fault := .notPrepared "create_minify_predicate"

end Retention

end Jarsmith

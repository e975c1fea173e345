import Mathlib.Data.List.Lex
import Jarsmith.Proofs.Configuration.OutputName

/-!
# The order of the classpath

The classpath begins with the project, if that is an archive. The dependencies after it ascend by
the names of their artifacts, and those of one name stand as in the configuration
(`classpath_eq_append`).

The name of an output is told here by the selectors of the tasks alone: it is the marked one if some
selector accepts the artifact, of whichever task and whatever the task would do
(`outputName_eq_ite`).
-/

namespace Jarsmith

/-! ### The order by code points -/

namespace Text

theorem le_iff {t u : Text} : le t u = true ↔ t ≤ u := by
  induction t generalizing u with
  | nil => exact iff_of_true rfl (not_lt.1 (List.not_lt_nil u))
  | cons a t ih =>
    cases u with
    | nil => exact iff_of_false (by simp [le]) (not_le.2 (List.nil_lt_cons a t))
    | cons b u =>
      unfold le
      rw [Bool.or_eq_true, Bool.and_eq_true, decide_eq_true_eq, beq_iff_eq, ih, ← not_lt,
        ← not_lt]
      exact List.cons_le_cons_iff.symm

theorem le_trans {t u v : Text} (htu : le t u = true) (huv : le u v = true) : le t v = true :=
  le_iff.2 ((le_iff.1 htu).trans (le_iff.1 huv))

theorem le_total (t u : Text) : (le t u || le u t) = true := by
  rw [Bool.or_eq_true, le_iff, le_iff]
  exact LinearOrder.le_total t u

theorem joinWith_eq_intercalate (separator : Text) (ts : List Text) :
    joinWith separator ts = separator.intercalate ts := by
  induction ts with
  | nil => rfl
  | cons t ts ih =>
    cases ts with
    | nil => simp [joinWith]
    | cons u rest => rw [joinWith, ih, List.intercalate_cons_cons]

end Text

namespace Configuration

variable {c : Configuration}

/-! ### Sorted dependencies -/

theorem pairwise_sortedDependencies (c : Configuration) :
    c.sortedDependencies.Pairwise fun a b => a.artifactId ≤ b.artifactId := by
  have hsorted : c.sortedDependencies.Pairwise fun a b =>
      Text.le a.artifactId b.artifactId = true := by
    refine List.pairwise_mergeSort ?_ ?_ _
    · exact fun _ _ _ => Text.le_trans
    · exact fun _ _ => Text.le_total _ _
  exact hsorted.imp Text.le_iff.1

/-- Sorting leaves the dependencies of one name in their order. -/
theorem filter_sortedDependencies (c : Configuration) (id : Text) :
    c.sortedDependencies.filter (·.artifactId = id) =
      c.dependencies.filter (·.artifactId = id) := by
  have hsame : (c.dependencies.filter (·.artifactId = id)).Pairwise fun a b =>
      Text.le a.artifactId b.artifactId = true := by
    refine List.pairwise_of_forall_mem_list fun a ha b hb => Text.le_iff.2 (le_of_eq ?_)
    exact (of_decide_eq_true (List.mem_filter.1 ha).2).trans
      (of_decide_eq_true (List.mem_filter.1 hb).2).symm
  have hsublist : (c.dependencies.filter (·.artifactId = id)).Sublist c.sortedDependencies := by
    refine List.sublist_mergeSort ?_ ?_ hsame List.filter_sublist
    · exact fun _ _ _ => Text.le_trans
    · exact fun _ _ => Text.le_total _ _
  have hsublist := hsublist.filter (·.artifactId = id)
  rw [List.filter_filter] at hsublist
  simp only [Bool.and_self] at hsublist
  have hlength := ((List.mergeSort_perm c.dependencies fun a b =>
    Text.le a.artifactId b.artifactId).filter (·.artifactId = id)).length_eq
  exact (hsublist.eq_of_length hlength.symm).symm

/-- **The classpath**: the project, and then the archives among the dependencies, ascending by the
names of their artifacts; those of one name in the order of the configuration. -/
theorem classpath_eq_append (c : Configuration) : ∃ dependencies : List Artifact,
    c.classpath = (c.project?.filter (·.isArchive)).toList ++ dependencies ∧
      dependencies.Pairwise (fun a b => a.artifactId ≤ b.artifactId) ∧
      ∀ id, dependencies.filter (·.artifactId = id) =
        c.dependencies.filter fun a => a.isArchive && decide (a.artifactId = id) := by
  refine ⟨c.sortedDependencies.filter Artifact.isArchive, ?_, ?_, fun id => ?_⟩
  · unfold classpath
    rw [List.filter_append]
    congr 1
    cases c.project? with
    | none => rfl
    | some a =>
      rw [Option.filter_some]
      cases harchive : a.isArchive <;> simp [harchive]
  · exact (pairwise_sortedDependencies c).filter _
  · rw [List.filter_filter, ← List.filter_filter, List.filter_comm]
    rw [filter_sortedDependencies, List.filter_filter]

/-! ### The names of the outputs -/

/-- The selectors of the tasks that the configuration has. -/
def taskSelectors (c : Configuration) : List Selector :=
  (c.minify?.map (·.selectors)).getD [] ++ (c.modify?.map (·.selectors)).getD []

theorem repackages_eq_any (c : Configuration) (a : Artifact) :
    c.repackages a = c.taskSelectors.any (·.accepts a.groupId a.artifactId) := by
  unfold repackages taskSelectors
  rw [List.any_append]
  cases c.minify? <;> cases c.modify? <;> rfl

theorem outputName_eq_ite (c : Configuration) (a : Artifact) : c.outputName a =
    if c.taskSelectors.any (·.accepts a.groupId a.artifactId) then
      a.artifactId ++ ("-" : Text) ++ a.version ++ ("-repackaged.jar" : Text)
    else a.artifactId ++ ("-" : Text) ++ a.version ++ (".jar" : Text) := by
  have hmark : ("-repackaged.jar" : Text) = ("-repackaged." : Text) ++ archiveType := by decide
  have hdash (t : Text) : 0x2D :: t = ("-" : Text) ++ t := rfl
  have hdot : (0x2E :: archiveType : Text) = ".jar" := by decide
  unfold outputName Artifact.repackagedName Artifact.copyName
  rw [repackages_eq_any, hmark, hdash, ← hdot]
  simp only [List.append_assoc]

end Configuration

end Jarsmith

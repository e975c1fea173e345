import Jarsmith.Proofs.EntryPoint.Origin

/-!
# Analyses of more archives with more entry points

A class of a classpath that is kept is kept as well when archives are appended to the classpath and
when further entry points are named or looked for (`Retention.keeps_of_extends`). What is appended
cannot take a class from the archive that it belongs to, nor a reference from the class
(`ClassGraph.extends_of_append`), so that every path from an entry point stays one.

Archives that are put in front may take a class over, and then what only its former definition
refers to is not reached any more.
-/

namespace Jarsmith

variable {files : FileSystem} {archives more : List Path}

namespace ClassGraph

variable {g g' : ClassGraph}

/-- What is read later does not change a class that was there before. -/
theorem Represents.extends_append {readings later : List (Path × List Found)}
    (hg : Represents g readings) (hg' : Represents g' (readings ++ later)) : Extends g g' := by
  intro X d hd
  cases hfirst : readings.find? (fun r => r.2.any (·.name = X)) with
  | none => exact absurd (hd.symm.trans (hg.find?_eq_none hfirst)) (Option.some_ne_none d)
  | some r =>
    -- The archive that had the class first has it first still.
    have hfirst' : (readings ++ later).find? (fun r => r.2.any (·.name = X)) = some r := by
      rw [List.find?_append, hfirst, Option.some_or]
    obtain ⟨d₀, hd₀, -, hreferences⟩ := hg.exists_definition hfirst
    obtain ⟨d', hd', -, hreferences'⟩ := hg'.exists_definition hfirst'
    obtain rfl := Option.some.inj (hd.symm.trans hd₀)
    exact ⟨d', hd', fun ref hr => (hreferences' ref).2 ((hreferences ref).1 hr)⟩

/-- The graph of a classpath to which archives were appended has everything that it had before. -/
theorem extends_of_append (h : (ofArchives files archives).outcome.1 = .ok g)
    (h' : (ofArchives files (archives ++ more)).outcome.1 = .ok g') : Extends g g' := by
  obtain ⟨opened, hopened, -, hg⟩ := represents_of_ofArchives h
  obtain ⟨all, hall, -, hg'⟩ := represents_of_ofArchives h'
  have hsplit : all = opened ++ openAll files more := by
    rw [← openAll_eq hall, ← openAll_eq hopened]
    exact List.filterMap_append
  rw [hsplit, List.map_append] at hg'
  exact hg.extends_append hg'

end ClassGraph

/-- The second task has the entry points of the first one, and looks for entry points wherever the
first one does. -/
structure MinifyTask.Extends (t t' : MinifyTask) : Prop where
  entryPoints : t.entryPoints ⊆ t'.entryPoints
  propertyMembers : t.propertyMembers ⊆ t'.propertyMembers
  serviceMembers : t.serviceMembers ⊆ t'.serviceMembers

theorem Text.unique_subset_unique {ts ts' : List Text} (h : ts ⊆ ts') :
    Text.unique ts ⊆ Text.unique ts' :=
  fun _ ht => Text.mem_unique.2 (h (Text.mem_unique.1 ht))

namespace Retention

variable {t t' : MinifyTask} {r r' : Retention}

/-- All that is reached is reached as well with more archives and more entry points. -/
theorem reaches_of_extends (ht : t.Extends t')
    (h : (analyze t files archives).outcome.1 = .ok r)
    (h' : (analyze t' files (archives ++ more)).outcome.1 = .ok r') {X : Text}
    (hX : r.graph.Reaches r.entryPoints X) : r'.graph.Reaches r'.entryPoints X := by
  obtain ⟨hgraph, hentryPoints, -⟩ := analyze_eq_ok h
  obtain ⟨hgraph', hentryPoints', -⟩ := analyze_eq_ok h'
  refine hX.mono (ClassGraph.extends_of_append hgraph hgraph') ?_
  exact EntryPoint.Sources.resolve_subset (Text.unique_subset_unique ht.entryPoints)
    (Text.unique_subset_unique ht.propertyMembers) (Text.unique_subset_unique ht.serviceMembers)
    (List.subset_append_left archives more) hentryPoints hentryPoints'

/-- **With more archives and more entry points, more is kept**: a member for a class of the graph
that is kept is kept after archives were appended to the classpath and entry points were added, and
its class cannot be removed. -/
theorem keeps_of_extends (ht : t.Extends t')
    (h : (analyze t files archives).outcome.1 = .ok r)
    (h' : (analyze t' files (archives ++ more)).outcome.1 = .ok r') {member X : Text}
    (hunit : Archive.unitName? member = some X) (hX : X ∈ r.graph.names)
    (hkept : r.keeps member = true) :
    r'.reachability.isRemovable X = false ∧ r'.keeps member = true := by
  obtain ⟨-, -, hreachability⟩ := analyze_eq_ok h
  obtain ⟨-, -, hreachability'⟩ := analyze_eq_ok h'
  have hreaches := reaches_of_extends ht h h' ((keeps_iff hreachability member).1 hkept X hunit hX)
  constructor
  · rw [hreachability', ← Bool.not_eq_true, ClassGraph.isRemovable_iff]
    exact fun hremovable => hremovable.2 hreaches
  · refine (keeps_iff hreachability' member).2 fun name hname _ => ?_
    rwa [← Option.some.inj (hunit.symm.trans hname)]

/-- The class `Y` is kept with an archive more that overrides `X`, and with more to look for. -/
theorem keeps_of_extends_of_override : ∃ r',
    (analyze ⟨[.all], ["Z", "X"], ["n.properties"], []⟩
      (Sample.files Sample.archive Sample.override) (["/a"] ++ ["/b"])).outcome.1 = .ok r' ∧
    r'.reachability.isRemovable "Y" = false ∧ r'.keeps "Y.class" = true := by
  have hfacts : (analyze Sample.task (Sample.files Sample.archive Sample.override)
      ["/a"]).outcome.1.toOption.map (fun r => (decide (("Y" : Text) ∈ r.graph.names),
        r.keeps "Y.class")) = some (true, true) := by
    decide +kernel
  obtain ⟨r, hr, hfacts⟩ := Option.map_eq_some_iff.1 hfacts
  obtain ⟨hnames, hkept⟩ := Prod.mk.inj hfacts
  obtain ⟨r', h', -⟩ := exists_analyze ⟨[.all], ["Z", "X"], ["n.properties"], []⟩
    (Sample.files Sample.archive Sample.override) (["/a"] ++ ["/b"]) "X" (b := false)
    (by decide +kernel)
  exact ⟨r', h', keeps_of_extends ⟨by decide, by decide, by decide⟩ (Except.toOption_eq_some.1 hr)
    h' (by decide +kernel) (of_decide_eq_true hnames) hkept⟩

end Retention

end Jarsmith

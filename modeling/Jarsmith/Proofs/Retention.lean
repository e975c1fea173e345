import Jarsmith.Proofs.ClassGraph.Scan
import Jarsmith.Retention

/-!
# What an analysis comes to

An analysis that succeeds is made of the graph of the classes and of the entry points, each found
without regard to the other (`Retention.analyze_eq_ok_iff`). It depends on the files only through
the archives that are opened (`Retention.analyze_congr`). Which names are kept is told by
`Retention.keeps_iff`, and for the members of the archives themselves, the classes of which are all
in the graph, by `Retention.keeps_member_iff`.
-/

namespace Jarsmith

variable {files files' : FileSystem} {archives : List Path}

namespace EntryPoint

theorem ofMembers_blind (a : OpenArchive) (read : Bytes → Except Fault (List Text))
    (names : List Text) : (ofMembers a read names).Blind := by
  induction names with
  | nil => exact .pure []
  | cons name names ih =>
    unfold ofMembers
    split
    · exact ih
    · have hrest (found : List Text) : Traced.Blind (do
          Traced.report (Log.event .debug .analyze
            (a.label name ++ (": " : Text) ++ Text.ofNat found.length ++ (" 个入口点" : Text)))
          return found ++ (← ofMembers a read names)) :=
        .bind (.report _) fun _ => .bind ih fun _ => .pure _
      dsimp only
      split
      · exact .bind (.pure _) hrest
      · exact .bind (.throw _) hrest

namespace Sources

theorem ofArchive_blind (s : Sources) (files : FileSystem) (path : Path) :
    (s.ofArchive files path).Blind := by
  unfold ofArchive
  split
  · exact .pure []
  · exact .bind (.lift _) fun a => .bind (ofMembers_blind a _ _) fun _ =>
      .bind (ofMembers_blind a _ _) fun _ => .pure _

theorem resolve_blind (s : Sources) (files : FileSystem) (archives : List Path) :
    (s.resolve files archives).Blind :=
  .bind (.mapM _ fun path => s.ofArchive_blind files path) fun _ => .pure _

theorem resolve_congr (s : Sources)
    (h : ∀ p ∈ archives, OpenArchive.load files p = OpenArchive.load files' p) :
    s.resolve files archives = s.resolve files' archives := by
  unfold resolve
  congr 1
  induction archives with
  | nil => rfl
  | cons p archives ih =>
    rw [List.mapM_cons, List.mapM_cons, ih fun q hq => h q (List.mem_cons_of_mem _ hq)]
    unfold ofArchive
    rw [h p List.mem_cons_self]

end Sources

end EntryPoint

namespace ClassGraph

theorem Scan.addArchives_congr
    (h : ∀ p ∈ archives, OpenArchive.load files p = OpenArchive.load files' p) (s : Scan) :
    s.addArchives files archives = s.addArchives files' archives := by
  induction archives generalizing s with
  | nil => rfl
  | cons p archives ih =>
    unfold addArchives addArchive
    rw [h p List.mem_cons_self]
    split
    · rfl
    · exact ih (fun q hq => h q (List.mem_cons_of_mem _ hq)) _

theorem ofArchives_congr
    (h : ∀ p ∈ archives, OpenArchive.load files p = OpenArchive.load files' p) :
    ofArchives files archives = ofArchives files' archives := by
  unfold ofArchives
  rw [Scan.addArchives_congr h]

end ClassGraph

namespace Retention

variable {t : MinifyTask} {r : Retention}

/-- The analysis of a classpath is that of its archives as they are opened. -/
theorem analyze_congr (t : MinifyTask)
    (h : ∀ p ∈ archives, OpenArchive.load files p = OpenArchive.load files' p) :
    analyze t files archives = analyze t files' archives := by
  unfold analyze
  rw [ClassGraph.ofArchives_congr h, EntryPoint.Sources.resolve_congr _ h]

/-- An analysis succeeds exactly if the graph and the entry points are found, and consists of them
and of what the entry points reach. -/
theorem analyze_eq_ok_iff : (analyze t files archives).outcome.1 = .ok r ↔
    (ClassGraph.ofArchives files archives).outcome.1 = .ok r.graph ∧
      ((EntryPoint.Sources.ofTask t).resolve files archives).outcome.1 = .ok r.entryPoints ∧
      r.reachability = r.graph.reachability r.entryPoints := by
  have hlast (graph : ClassGraph) (entryPoints : List Text) : Traced.Blind (do
      Traced.report (Log.event .info .analyze
        (("入口点 " : Text) ++ Text.ofNat entryPoints.length ++ (" 个" : Text)))
      Traced.reportAll (entryPoints.map fun name =>
        Log.event .debug .analyze (("入口点: " : Text) ++ name))
      let reachability := graph.reachability entryPoints
      Traced.reportAll (graph.reachabilityEvents entryPoints reachability)
      return (⟨graph, entryPoints, reachability⟩ : Retention)) :=
    .bind (.report _) fun _ => .bind (.reportAll _) fun _ => .bind (.reportAll _) fun _ => .pure _
  unfold analyze
  rw [Traced.outcome_bind_eq_ok fun graph =>
    .bind (EntryPoint.Sources.resolve_blind _ _ _) fun _ => hlast graph _]
  constructor
  · rintro ⟨graph, hgraph, h⟩
    obtain ⟨entryPoints, hentryPoints, h⟩ := (Traced.outcome_bind_eq_ok fun _ => hlast graph _).1 h
    obtain rfl : (⟨graph, entryPoints, graph.reachability entryPoints⟩ : Retention) = r := by
      exact Except.ok.inj h
    exact ⟨hgraph, hentryPoints, rfl⟩
  · rintro ⟨hgraph, hentryPoints, hreachability⟩
    refine ⟨r.graph, hgraph, (Traced.outcome_bind_eq_ok fun _ => hlast r.graph _).2
      ⟨r.entryPoints, hentryPoints, ?_⟩⟩
    obtain ⟨graph, entryPoints, reachability⟩ := r
    obtain rfl : reachability = graph.reachability entryPoints := hreachability
    rfl

/-- An analysis that succeeds consists of the graph and of what the entry points reach in it. -/
theorem analyze_eq_ok (h : (analyze t files archives).outcome.1 = .ok r) :
    (ClassGraph.ofArchives files archives).outcome.1 = .ok r.graph ∧
      ((EntryPoint.Sources.ofTask t).resolve files archives).outcome.1 = .ok r.entryPoints ∧
      r.reachability = r.graph.reachability r.entryPoints :=
  analyze_eq_ok_iff.1 h

/-- A member is dropped exactly if it defines a class of the graph that no entry point reaches. -/
theorem keeps_iff (h : r.reachability = r.graph.reachability r.entryPoints) (member : Text) :
    r.keeps member = true ↔ ∀ name, Archive.unitName? member = some name →
      name ∈ r.graph.names → r.graph.Reaches r.entryPoints name := by
  unfold keeps
  split
  · next hunit => simp [hunit]
  · next name hunit =>
    have hremovable : (r.graph.reachability r.entryPoints).isRemovable name = true ↔
        name ∈ r.graph.names ∧ ¬ r.graph.Reaches r.entryPoints name := ClassGraph.isRemovable_iff
    rw [h]
    cases hr : (r.graph.reachability r.entryPoints).isRemovable name with
    | true =>
      obtain ⟨hname, hnot⟩ := hremovable.1 hr
      simpa [hunit, hname] using hnot
    | false =>
      have hkept : name ∈ r.graph.names → r.graph.Reaches r.entryPoints name := by
        intro hname
        rw [← Bool.not_eq_true, hremovable, not_and, Classical.not_not] at hr
        exact hr hname
      simpa [hunit] using hkept

/-- A member of one of the archives is kept exactly if the class that it defines, if any, is reached
from the entry points. -/
theorem keeps_member_iff (h : (analyze t files archives).outcome.1 = .ok r) {path : Path}
    (hpath : path ∈ archives) {a : OpenArchive} (hload : OpenArchive.load files path = .ok a)
    {m : Archive.Member} (hm : m ∈ a.archive.members) :
    r.keeps m.name = true ↔
      ∀ X, Archive.unitName? m.name = some X → r.graph.Reaches r.entryPoints X := by
  obtain ⟨hgraph, -, hreachability⟩ := analyze_eq_ok h
  obtain ⟨opened, hopened, hfailure, hrep⟩ := ClassGraph.represents_of_ofArchives hgraph
  have ha : a ∈ opened := by
    have hmem : Except.ok a ∈ archives.map (OpenArchive.load files) :=
      hload ▸ List.mem_map_of_mem hpath
    rw [hopened] at hmem
    simpa using hmem
  rw [keeps_iff hreachability]
  constructor
  · intro hkept X hunit
    exact hkept X hunit (ClassGraph.mem_names_of_represents hrep hfailure ha hm hunit)
  · exact fun hall X hunit _ => hall X hunit

end Retention

end Jarsmith

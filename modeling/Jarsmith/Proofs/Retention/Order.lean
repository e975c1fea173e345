import Jarsmith.Proofs.ClassGraph.Duplicate
import Jarsmith.Proofs.EntryPoint.Origin

/-!
# Analyses that do not depend on the order of the archives

The first archive that has a class is the one that it belongs to, so that in general the order of
the archives matters. It does not if no duplicates were recorded: then any order gives the same
classes in the same archives, with the same references, and the same entry points, so that the same
is reached and the same can be removed (`Retention.analyze_perm`).
-/

namespace Jarsmith

variable {files : FileSystem} {archives archives' : List Path} {opened : List OpenArchive}

/-- Archives that can all be opened are opened as they are listed. -/
theorem map_load_openAll (h : ∀ p ∈ archives, ∃ a, OpenArchive.load files p = .ok a) :
    archives.map (OpenArchive.load files) = (openAll files archives).map .ok := by
  induction archives with
  | nil => rfl
  | cons p archives ih =>
    obtain ⟨⟨a, ha⟩, hrest⟩ := List.forall_mem_cons.1 h
    unfold openAll at ih ⊢
    rw [List.filterMap_cons_some (b := a) (by rw [ha]; rfl), List.map_cons, List.map_cons, ha,
      ih hrest]

/-- An archive that was opened is what its path leads to. -/
theorem load_path_of_mem_opened
    (h : archives.map (OpenArchive.load files) = opened.map .ok) {a : OpenArchive}
    (ha : a ∈ opened) : OpenArchive.load files a.path = .ok a := by
  have hmem : (.ok a : Except Fault OpenArchive) ∈ opened.map .ok := List.mem_map_of_mem ha
  rw [← h] at hmem
  obtain ⟨p, -, hp⟩ := List.mem_map.1 hmem
  rwa [(OpenArchive.load_eq_ok.1 hp).1]

/-- Archives that can be opened in one order can be opened in any other. -/
theorem map_load_of_perm (h : archives.map (OpenArchive.load files) = opened.map .ok)
    (hperm : archives.Perm archives') :
    ∃ opened', archives'.map (OpenArchive.load files) = opened'.map .ok ∧ opened.Perm opened' := by
  refine ⟨openAll files archives', map_load_openAll fun p hp => ?_, ?_⟩
  · have hmem : OpenArchive.load files p ∈ archives.map (OpenArchive.load files) :=
      List.mem_map_of_mem (hperm.mem_iff.2 hp)
    rw [h] at hmem
    obtain ⟨a, -, ha⟩ := List.mem_map.1 hmem
    exact ⟨a, ha.symm⟩
  · rw [← openAll_eq h]
    exact hperm.filterMap _

namespace ClassGraph

variable {g g' : ClassGraph}

/-- Archives in another order have the same graph, but for the order of what is in it, if it has no
duplicates. -/
theorem exists_ofArchives_of_perm (h : (ofArchives files archives).outcome.1 = .ok g)
    (hnone : g.duplicates = []) (hperm : archives.Perm archives') :
    ∃ g', (ofArchives files archives').outcome.1 = .ok g' ∧ g'.duplicates = [] ∧
      SameClasses g g' := by
  obtain ⟨opened, hopened, hfailure, hg, hiff⟩ := exists_unrepeated h
  obtain ⟨opened', hopened', hperm'⟩ := map_load_of_perm hopened hperm
  obtain ⟨g', h'⟩ := exists_ofArchives hopened' fun a ha => hfailure a (hperm'.mem_iff.2 ha)
  obtain ⟨same, hsame, -, hg', hiff'⟩ := exists_unrepeated h'
  obtain rfl : same = opened' := (openAll_eq hsame).symm.trans (openAll_eq hopened')
  have hreadings := hperm'.map fun a : OpenArchive => (a.path, (readingOf a).found)
  have hclean := hiff.1 hnone
  refine ⟨g', h', hiff'.2 (hclean.of_perm hreadings),
    hg.sameClasses_of_perm hg' hclean ?_ hreadings⟩
  -- What is at one path was opened as one archive.
  intro b hb c hc hpath
  obtain ⟨a, ha, rfl⟩ := List.mem_map.1 hb
  obtain ⟨a', ha', rfl⟩ := List.mem_map.1 hc
  have hload := load_path_of_mem_opened hopened ha
  have hload' := load_path_of_mem_opened hopened ha'
  rw [show a.path = a'.path from hpath, hload'] at hload
  rw [Except.ok.inj hload]

end ClassGraph

namespace Retention

/-- **The order of the archives does not matter where there are no duplicates**: an analysis that
records none succeeds in any other order, again records none, and comes to the same classes in the
same archives, with the same references, to the same entry points, and to the same classes that are
reached and that can be removed. -/
theorem analyze_perm {t : MinifyTask} {r : Retention}
    (h : (analyze t files archives).outcome.1 = .ok r) (hnone : r.graph.duplicates = [])
    (hperm : archives.Perm archives') :
    ∃ r', (analyze t files archives').outcome.1 = .ok r' ∧ r'.graph.duplicates = [] ∧
      ClassGraph.SameClasses r.graph r'.graph ∧
      (∀ X, X ∈ r'.entryPoints ↔ X ∈ r.entryPoints) ∧
      (∀ X, X ∈ r'.reachability.reachable ↔ X ∈ r.reachability.reachable) ∧
      ∀ X, X ∈ r'.reachability.removable ↔ X ∈ r.reachability.removable := by
  obtain ⟨hgraph, hentryPoints, hreachability⟩ := analyze_eq_ok h
  obtain ⟨g', hgraph', hnone', hsame⟩ := ClassGraph.exists_ofArchives_of_perm hgraph hnone hperm
  obtain ⟨entryPoints', hentryPoints', hmem⟩ :=
    EntryPoint.Sources.exists_resolve_of_perm hperm hentryPoints
  have hreaches (X : Text) := hsame.reaches_iff (X := X) hmem
  refine ⟨⟨g', entryPoints', g'.reachability entryPoints'⟩,
    analyze_eq_ok_iff.2 ⟨hgraph', hentryPoints', rfl⟩, hnone', hsame, hmem, fun X => ?_, fun X => ?_⟩
  · rw [hreachability]
    exact ClassGraph.mem_reachable_iff.trans ((hreaches X).trans ClassGraph.mem_reachable_iff.symm)
  · rw [hreachability]
    refine ClassGraph.mem_removable_iff.trans (Iff.trans ?_ ClassGraph.mem_removable_iff.symm)
    rw [hreaches X, hsame.mem_names_iff]

end Retention

/-- The archive of the class `Z`, which refers to `X`. -/
def Sample.referrer : Bytes := Archive.encode [Sample.member "Z.class" (Sample.classFile "Z" ["X"])]

/-- The class `Z` is removed whether its archive comes last or first. -/
theorem Retention.analyze_perm_of_two : ∃ r r',
    let files := Sample.files Sample.archive Sample.referrer
    (Retention.analyze Sample.task files ["/a", "/b"]).outcome.1 = .ok r ∧
      r.graph.duplicates = [] ∧
      (Retention.analyze Sample.task files ["/b", "/a"]).outcome.1 = .ok r' ∧
      r'.graph.duplicates = [] ∧ ClassGraph.SameClasses r.graph r'.graph ∧
      ("Z" : Text) ∈ r'.reachability.removable := by
  have hfacts : (Retention.analyze Sample.task (Sample.files Sample.archive Sample.referrer)
      ["/a", "/b"]).outcome.1.toOption.map (fun r => (r.graph.duplicates, r.reachability.removable)) =
        some ([], [("Z" : Text)]) := by
    decide +kernel
  obtain ⟨r, hr, hfacts⟩ := Option.map_eq_some_iff.1 hfacts
  obtain ⟨hnone, hremovable⟩ := Prod.mk.inj hfacts
  have h := Except.toOption_eq_some.1 hr
  obtain ⟨r', h', hnone', hsame, -, -, hremovable'⟩ :=
    Retention.analyze_perm h hnone (.swap _ _ [])
  exact ⟨r, r', h, hnone, h', hnone', hsame, (hremovable' _).2 (by rw [hremovable]; simp)⟩

end Jarsmith

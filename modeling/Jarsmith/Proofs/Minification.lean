import Jarsmith.Proofs.ClassFile.DebugInformation
import Jarsmith.Proofs.EntryPoint
import Jarsmith.Proofs.Repackaging

/-!
# Minification is done once

An archive that was repackaged has the members that are kept, and their class files name the same
classes as before (`Repackaged.exists_reduced`). If any of the archives of a classpath are
repackaged and the others left alone, a second analysis of it succeeds with the same entry points,
reaches the same classes, and keeps all that the first one kept (`minification_fixpoint`).

The archive that gives a class its definition may be another one afterwards, but only for a class
that is not reached: a class that is reached is kept in every archive.
-/

namespace Jarsmith

open OpenArchive ClassGraph Repackaging

variable {files files' : FileSystem} {p p' : Path} {a a' : OpenArchive} {retention : Retention}
  {K : Text → Bool}

/-! ### Archives that were repackaged -/

/-- The archive at `p'` is the one at `p`, repackaged with the members that are kept. The data of
class members went through transformers, if there are any. -/
def Repackaged (retention : Retention) (files files' : FileSystem) (p p' : Path) : Prop :=
  ∃ (a : OpenArchive) (transformers? : Option (List Transformer)) (level : Deflate.Level),
    let editor? := transformers?.map fun ts => editorOf (ts.map Transformer.change)
    let run := processMembers ⟨some retention.keeps, editor?, level⟩ a a.bytes a.archive.members
    OpenArchive.load files p = .ok a ∧ run.failure? = none ∧ Archive.ReadsBack run.written ∧
      files'.read p' = .ok (Archive.encode run.written)

theorem changeData_of_editorOf {changes : List ClassChange} {data data' : Bytes}
    (h : editorOf changes data = .ok (.bytes data')) : changeData changes data = .ok data' := by
  obtain ⟨edited, hedited, heq⟩ := Except.map_eq_ok.1 h
  rwa [← Edited.bytes.inj heq]

/-- A member that was rewritten stands for the one that it was made of. -/
theorem replaces_of_rewritten {transformers? : Option (List Transformer)} {m m' : Archive.Member}
    {new : Archive.NewMember} (h : Rewritten
      (transformers?.map fun ts => editorOf (ts.map Transformer.change)) a m new)
    (hholds : a'.Holds m' new) : Replaces a a' m m' := by
  obtain ⟨data, hdata, hedited⟩ := h.data
  have hsame (data' : Bytes) (hread : a.read m = .ok data') : data' = data :=
    Except.ok.inj (hread.symm.trans hdata)
  refine ⟨?_, fun data' self references hread hdeps => ?_, fun hclass data' hread => ?_⟩
  · have hname : m'.name = new.recorded.name := congrArg Archive.Entry.name hholds.entry
    have hrecorded : new.recorded.name = new.entry.name := rfl
    rw [hname, hrecorded, h.entry]
    rfl
  · obtain rfl := hsame data' hread
    refine ⟨new.data, hholds.read, ?_⟩
    cases heditor : editorFor? (transformers?.map fun ts => editorOf (ts.map Transformer.change))
        m.name with
    | none =>
      rw [heditor] at hedited
      rwa [show new.data = data' from hedited]
    | some r =>
      rw [heditor] at hedited
      unfold editorFor? at heditor
      split at heditor
      · obtain ⟨ts, -, rfl⟩ := Option.map_eq_some_iff.1 heditor
        exact dependencies_changeData hdeps (changeData_of_editorOf hedited)
      · simp at heditor
  · obtain rfl := hsame data' hread
    rw [editorFor?, hclass, if_neg Bool.false_ne_true] at hedited
    rw [hholds.read, hedited]

/-- Members that are written and read back stand for those that they were made of. -/
theorem forall₂_replaces (transformers? : Option (List Transformer))
    {members members' : List Archive.Member} {written : List Archive.NewMember}
    (h : List.Forall₂ (Rewritten
      (transformers?.map fun ts => editorOf (ts.map Transformer.change)) a) members written)
    (hholds : List.Forall₂ a'.Holds members' written) :
    List.Forall₂ (Replaces a a') members members' := by
  induction h generalizing members' with
  | nil =>
    obtain rfl := List.forall₂_nil_right_iff.1 hholds
    exact .nil
  | cons hnew _ ih =>
    obtain ⟨m', rest, hm', hrest, rfl⟩ := List.forall₂_cons_right_iff.1 hholds
    exact .cons (replaces_of_rewritten hnew hm') (ih hrest)

theorem staysFor_eq_keeps (retention : Retention) (m : Archive.Member) :
    staysFor (fun X => !retention.reachability.isRemovable X) m = retention.keeps m.name := by
  unfold staysFor Retention.keeps
  cases Archive.unitName? m.name <;> rfl

/-- A repackaged archive has the members of the classes that are not removed. -/
theorem Repackaged.exists_reduced (h : Repackaged retention files files' p p') :
    ∃ a a', OpenArchive.load files p = .ok a ∧ OpenArchive.load files' p' = .ok a' ∧
      Reduced (fun X => !retention.reachability.isRemovable X) a a' := by
  obtain ⟨a, transformers?, level, hload, hfailure, hback, hread⟩ := h
  have hwritten := forall₂_written hfailure
  obtain ⟨a', hload', hholds⟩ := hback.exists_load (method_of_forall₂_rewritten hwritten) hread
  refine ⟨a, a', hload, hload', forall₂_replaces transformers? ?_ hholds⟩
  rw [funext fun m => staysFor_eq_keeps retention m]
  exact hwritten

/-- An archive that is left alone has all its members. -/
theorem exists_reduced_of_read_eq (h : files'.read p' = files.read p)
    (hload : OpenArchive.load files p = .ok a) :
    ∃ a', OpenArchive.load files' p' = .ok a' ∧ Reduced (fun _ => true) a a' := by
  obtain ⟨-, hbytes, harchive⟩ := load_eq_ok.1 hload
  refine ⟨⟨p', a.bytes, a.archive⟩, load_eq_ok.2 ⟨rfl, h.trans hbytes, harchive⟩, ?_⟩
  have hall : a.archive.members.filter (staysFor fun _ => true) = a.archive.members :=
    List.filter_eq_self.2 fun m _ => by
      unfold staysFor
      cases Archive.unitName? m.name <;> rfl
  unfold Reduced
  rw [hall, List.forall₂_same]
  have hread {m : Archive.Member} {data : Bytes} (hdata : a.read m = .ok data) :
      OpenArchive.read ⟨p', a.bytes, a.archive⟩ m = .ok data := by
    obtain ⟨hmethod, hcontents⟩ := read_eq_ok.1 hdata
    exact read_eq_ok.2 ⟨hmethod, hcontents⟩
  exact fun m _ => ⟨rfl, fun data self references hdata hdeps => ⟨data, hread hdata, hdeps⟩,
    fun _ data hdata => hread hdata⟩

/-! ### The second analysis -/

/-- The archive `a'` is `a` without classes that are not reached. -/
def Lessened (retention : Retention) (a a' : OpenArchive) : Prop :=
  ∃ K, Reduced K a a' ∧ ∀ X, retention.graph.Reaches retention.entryPoints X → K X = true

/-- The archive at `p'` is the one at `p` without classes that are not reached. -/
def LessenedAt (retention : Retention) (files files' : FileSystem) (p p' : Path) : Prop :=
  ∀ a, OpenArchive.load files p = .ok a →
    ∃ a', OpenArchive.load files' p' = .ok a' ∧ Lessened retention a a'

variable {archives archives' : List Path} {opened opened' : List OpenArchive}

theorem exists_opened (h : List.Forall₂ (LessenedAt retention files files') archives archives')
    (hopened : archives.map (OpenArchive.load files) = opened.map .ok) :
    ∃ opened' : List OpenArchive, archives'.map (OpenArchive.load files') = opened'.map .ok ∧
      List.Forall₂ (Lessened retention) opened opened' := by
  induction h generalizing opened with
  | nil =>
    obtain rfl : opened = [] := List.map_eq_nil_iff.1 hopened.symm
    exact ⟨[], rfl, .nil⟩
  | cons hp _ ih =>
    rw [List.map_cons] at hopened
    obtain ⟨a, rest, rfl, ha, hrest⟩ := List.map_eq_cons_iff.1 hopened.symm
    obtain ⟨a', ha', hlessened⟩ := hp a ha.symm
    obtain ⟨rest', hrest', hforall⟩ := ih hrest.symm
    exact ⟨a' :: rest', by rw [List.map_cons, List.map_cons, ha', hrest'],
      .cons hlessened hforall⟩

/-- What is left of archives that were read is read into a graph. -/
theorem exists_graph_of_lessened
    (h : List.Forall₂ (fun a a' => (readingOf a).failure? = none ∧ Lessened retention a a')
      opened opened')
    (hopened' : archives'.map (OpenArchive.load files') = opened'.map .ok) :
    ∃ g', (ofArchives files' archives').outcome.1 = .ok g' ∧
      Represents g' (opened'.map fun a => (a.path, (readingOf a).found)) := by
  have hfailure' : ∀ a' ∈ opened', (readingOf a').failure? = none := by
    intro a' ha'
    obtain ⟨a, -, hread, K, hreduced, -⟩ := exists_mem_of_forall₂ h ha'
    exact (readingOf_of_reduced hreduced hread).1
  obtain ⟨g', hgraph'⟩ := exists_ofArchives hopened' hfailure'
  obtain ⟨same, hsame, -, hrep'⟩ := represents_of_ofArchives hgraph'
  obtain rfl : same = opened' := List.map_injective_iff.2
    (fun _ _ => Except.ok.inj) (hsame.symm.trans hopened')
  exact ⟨g', hgraph', hrep'⟩

/-- Archives that were read give the entry points that they gave. -/
theorem resolve_of_lessened (s : EntryPoint.Sources) {found : List Text}
    (h : List.Forall₂ (LessenedAt retention files files') archives archives')
    (hloaded : ∀ p ∈ archives, ∃ a, OpenArchive.load files p = .ok a ∧
      (readingOf a).failure? = none)
    (hrun : (s.resolve files archives).outcome.1 = .ok found) :
    (s.resolve files' archives').outcome.1 = .ok found := by
  have hforall := (List.forall₂_and_left archives archives').2 ⟨hloaded, h⟩
  refine s.resolve_of_forall₂ (hforall.imp ?_) hrun
  rintro p p' ⟨⟨a, hload, hread⟩, hlessened⟩ found hfound
  obtain ⟨a', hload', K, hreduced, -⟩ := hlessened a hload
  exact s.ofArchive_of_reduced hload hload' hreduced hread hfound

/-- The same classes are reached in the graph of what is left. -/
theorem reaches_iff_of_lessened {g' : ClassGraph}
    (h : List.Forall₂ (fun a a' => (readingOf a).failure? = none ∧ Lessened retention a a')
      opened opened')
    (hrep : Represents retention.graph (opened.map fun a => (a.path, (readingOf a).found)))
    (hrep' : Represents g' (opened'.map fun a => (a.path, (readingOf a).found))) (X : Text) :
    g'.Reaches retention.entryPoints X ↔ retention.graph.Reaches retention.entryPoints X := by
  refine reaches_iff_of_agreeAt (fun X hX => hrep.agreeAt hrep' ?_)
    fun X => hrep.defines_of_forall₂ hrep' ?_
  · rw [List.forall₂_map_left_iff, List.forall₂_map_right_iff]
    refine h.imp fun a a' ⟨hread, K, hreduced, hK⟩ => ?_
    exact ⟨K, hK X hX, (readingOf_of_reduced hreduced hread).2⟩
  · rw [List.forall₂_map_left_iff, List.forall₂_map_right_iff]
    refine h.imp fun a a' ⟨hread, K, hreduced, _⟩ f hf => ?_
    rw [(readingOf_of_reduced hreduced hread).2] at hf
    exact (List.mem_filter.1 hf).1

/-- What is left of a classpath is analysed with the same entry points, and the same classes are
reached. -/
theorem analyze_of_lessened {t : MinifyTask}
    (h : (Retention.analyze t files archives).outcome.1 = .ok retention)
    (hlessened : List.Forall₂ (LessenedAt retention files files') archives archives') :
    ∃ again, (Retention.analyze t files' archives').outcome.1 = .ok again ∧
      again.entryPoints = retention.entryPoints ∧
      ∀ X, again.graph.Reaches again.entryPoints X ↔
        retention.graph.Reaches retention.entryPoints X := by
  obtain ⟨hgraph, hentryPoints, -⟩ := Retention.analyze_eq_ok h
  obtain ⟨opened, hopened, hfailure, hrep⟩ := represents_of_ofArchives hgraph
  obtain ⟨opened', hopened', hlost⟩ := exists_opened hlessened hopened
  have hforall := (List.forall₂_and_left opened opened').2 ⟨hfailure, hlost⟩
  obtain ⟨g', hgraph', hrep'⟩ := exists_graph_of_lessened hforall hopened'
  -- the entry points are looked for in the archives of the same paths
  have hloaded : ∀ p ∈ archives, ∃ a, OpenArchive.load files p = .ok a ∧
      (readingOf a).failure? = none := by
    intro p hp
    have hmem : OpenArchive.load files p ∈ opened.map .ok := hopened ▸ List.mem_map_of_mem hp
    obtain ⟨a, ha, hload⟩ := List.mem_map.1 hmem
    exact ⟨a, hload.symm, hfailure a ha⟩
  have hentryPoints' := resolve_of_lessened _ hlessened hloaded hentryPoints
  exact ⟨⟨g', retention.entryPoints, g'.reachability retention.entryPoints⟩,
    Retention.analyze_eq_ok_iff.2 ⟨hgraph', hentryPoints', rfl⟩, rfl,
    reaches_iff_of_lessened hforall hrep hrep'⟩

theorem isRemovable_eq_false_of_reaches (h : retention.reachability =
    retention.graph.reachability retention.entryPoints) {X : Text}
    (hX : retention.graph.Reaches retention.entryPoints X) :
    retention.reachability.isRemovable X = false := by
  rw [h, ← Bool.not_eq_true, isRemovable_iff]
  exact fun hremovable => hremovable.2 hX

/-- **Minification is done once.** Where some archives of a classpath are repackaged with the
members that its analysis keeps, and the others are left as they are, a second analysis finds the
same entry points, reaches the same classes, and keeps every member of the archives that were
repackaged. -/
theorem minification_fixpoint {t : MinifyTask}
    (h : (Retention.analyze t files archives).outcome.1 = .ok retention)
    (hreplaced : List.Forall₂ (fun p p' =>
      files'.read p' = files.read p ∨ Repackaged retention files files' p p') archives archives') :
    ∃ again, (Retention.analyze t files' archives').outcome.1 = .ok again ∧
      again.entryPoints = retention.entryPoints ∧
      (∀ X, X ∈ again.reachability.reachable ↔ X ∈ retention.reachability.reachable) ∧
      ∀ p ∈ archives, ∀ p' ∈ archives', Repackaged retention files files' p p' →
        ∃ a', OpenArchive.load files' p' = .ok a' ∧
          ∀ m ∈ a'.archive.members, again.keeps m.name = true := by
  obtain ⟨-, -, hreachability⟩ := Retention.analyze_eq_ok h
  have hlessened : List.Forall₂ (LessenedAt retention files files') archives archives' := by
    refine hreplaced.imp fun p p' hp a hload => ?_
    rcases hp with hread | hrepackaged
    · obtain ⟨a', hload', hreduced⟩ := exists_reduced_of_read_eq hread hload
      exact ⟨a', hload', _, hreduced, fun _ _ => rfl⟩
    · obtain ⟨a₀, a', hload₀, hload', hreduced⟩ := hrepackaged.exists_reduced
      obtain rfl := Except.ok.inj (hload₀.symm.trans hload)
      -- a class that is reached is not removed from any archive
      refine ⟨a', hload', _, hreduced, fun X hX => ?_⟩
      rw [isRemovable_eq_false_of_reaches hreachability hX, Bool.not_false]
  obtain ⟨again, hagain, hentryPoints, hreaches⟩ := analyze_of_lessened h hlessened
  obtain ⟨-, -, hreachability'⟩ := Retention.analyze_eq_ok hagain
  refine ⟨again, hagain, hentryPoints, fun X => ?_, fun p hp p' hp' hrepackaged => ?_⟩
  · rw [hreachability, hreachability']
    exact mem_reachable_iff.trans ((hreaches X).trans mem_reachable_iff.symm)
  · obtain ⟨a, a', hload, hload', hreduced⟩ := hrepackaged.exists_reduced
    refine ⟨a', hload', fun m' hm' => ?_⟩
    -- the member stands for one that was kept, so its class is reached, now as it was before
    obtain ⟨m, hm, hreplaces⟩ := exists_mem_of_forall₂ hreduced hm'
    obtain ⟨hm, hstays⟩ := List.mem_filter.1 hm
    rw [staysFor_eq_keeps] at hstays
    rw [Retention.keeps_member_iff hagain hp' hload' hm']
    intro X hunit
    rw [hreplaces.name] at hunit
    exact (hreaches X).2 ((Retention.keeps_member_iff h hp hload hm).1 hstays X hunit)

namespace Sample

/-- The archive of the class `X`, which refers to `Y`, of `Y`, and of `Z`, which nothing needs. -/
def threeClasses : Bytes :=
  Archive.encode [member "X.class" (classFile "X" ["Y"]), member "Z.class" (classFile "Z" ["X"]),
    member "Y.class" (classFile "Y" []), member "n.txt" [0x4E]]

/-- The run that repackages an archive without debug information. -/
def runOf (retention : Retention) (a : OpenArchive) : Outcome :=
  processMembers ⟨some retention.keeps,
    (some [Transformer.removeDebugInformation]).map fun ts => editorOf (ts.map Transformer.change),
    .standard⟩ a a.bytes a.archive.members

/-- The analysis of two archives, and the first one as it is opened. -/
def analysed? (first second : Bytes) : Option (Retention × OpenArchive) := do
  let files := Sample.files first second
  let retention ← (Retention.analyze task files ["/a", "/b"]).outcome.1.toOption
  return (retention, ← (OpenArchive.load files "/a").toOption)

end Sample

/-- The class `Z` is removed from the first archive, so that now the second one defines it. -/
theorem minification_fixpoint_of_two : ∃ retention files' again,
    let files := Sample.files Sample.threeClasses Sample.threeClasses
    (Retention.analyze Sample.task files ["/a", "/b"]).outcome.1 = .ok retention ∧
      Repackaged retention files files' "/a" "/a" ∧ retention.keeps "Z.class" = false ∧
      (Retention.analyze Sample.task files' ["/a", "/b"]).outcome.1 = .ok again ∧
      again.entryPoints = retention.entryPoints ∧
      (∀ X, X ∈ again.reachability.reachable ↔ X ∈ retention.reachability.reachable) ∧
      ∃ a', OpenArchive.load files' "/a" = .ok a' ∧
        ∀ m ∈ a'.archive.members, again.keeps m.name = true := by
  have hfacts : (Sample.analysed? Sample.threeClasses Sample.threeClasses).map (fun p =>
      let run := Sample.runOf p.1 p.2
      (run.failure?.isNone, decide (Archive.ReadsBack run.written), p.1.keeps "Z.class")) =
      some (true, true, false) := by
    decide +kernel
  obtain ⟨⟨_, _⟩, hanalysed, hfacts⟩ := Option.map_eq_some_iff.1 hfacts
  simp only [Prod.mk.injEq, Option.isNone_iff_eq_none, decide_eq_true_eq] at hfacts
  obtain ⟨hfailure, hback, hremoved⟩ := hfacts
  unfold Sample.analysed? at hanalysed
  simp only [Option.bind_eq_bind, Option.bind_eq_some_iff, Except.toOption_eq_some,
    Option.pure_def, Option.some.injEq, Prod.mk.injEq] at hanalysed
  obtain ⟨retention, h, a, hload, rfl, rfl⟩ := hanalysed
  let files' := Sample.files (Archive.encode (Sample.runOf retention a).written) Sample.threeClasses
  have hrepackaged : Repackaged retention
      (Sample.files Sample.threeClasses Sample.threeClasses) files' "/a" "/a" :=
    ⟨a, some [.removeDebugInformation], .standard, hload, hfailure, hback, rfl⟩
  have hreplaced : List.Forall₂ (fun p p' =>
      files'.read p' = (Sample.files Sample.threeClasses Sample.threeClasses).read p ∨
        Repackaged retention (Sample.files Sample.threeClasses Sample.threeClasses) files' p p')
      ["/a", "/b"] ["/a", "/b"] :=
    .cons (.inr hrepackaged) (.cons (.inl rfl) .nil)
  obtain ⟨again, hagain, hentryPoints, hreachable, hkept⟩ := minification_fixpoint h hreplaced
  exact ⟨retention, files', again, h, hrepackaged, hremoved, hagain, hentryPoints, hreachable,
    hkept "/a" List.mem_cons_self "/a" List.mem_cons_self hrepackaged⟩

end Jarsmith

import Jarsmith.Proofs.Build.Inputs
import Jarsmith.Proofs.Retention

/-!
# What the outputs of a build hold

Where outputs must not be there before, a build that succeeds leaves for each artifact of the
classpath the output that the configuration asks for (`build_outputs`): a copy of the artifact's
file if no task is for the artifact (`Request.Copied`), else an archive of the members that are to
be kept, in their order (`Request.Repackaged`). Which members these are is told by the files as they
were before the build and by the graph of all their classes (`Request.Keeps`).

Every output is written to a free place. So the inputs are what they were when the classpath was
analysed, and each output is left alone by all that comes after it: `Underway` is kept by writing an
output (`ArchiveOutput.underway_of_writeNext`), and under it the output is what it should be.
-/

namespace Jarsmith.Build

variable {e : Setting} {request : Request} {assembly after : Assembly} {a : Artifact}
  {files : FileSystem} {w₀ w w' : World}

/-! ### What is asked for -/

/-- The files of the classpath. -/
def Request.inputs (request : Request) : List Path := request.configuration.classpath.map (·.file)

/-- The class is reached from the entry points of the task in the graph of the whole classpath. -/
def Request.Reached (request : Request) (files : FileSystem) (task : MinifyTask) (X : Text) :
    Prop :=
  ∃ graph entryPoints, (ClassGraph.ofArchives files request.inputs).outcome.1 = .ok graph ∧
    ((EntryPoint.Sources.ofTask task).resolve files request.inputs).outcome.1 = .ok entryPoints ∧
    graph.Reaches entryPoints X

/-- The member of an artifact's archive is to be kept. Only a class that is not reached is not, if
the task of minification is for the artifact. -/
def Request.Keeps (request : Request) (files : FileSystem) (a : Artifact) (member : Text) : Prop :=
  ∀ task X, request.configuration.minify? = some task → task.accepts a = true →
    Archive.unitName? member = some X → request.Reached files task X

/-- The file at `path` has the bytes that the artifact's file had before. -/
def Request.Copied (files after : FileSystem) (a : Artifact) (path : Path) : Prop :=
  ∃ bytes, files.read a.file = .ok bytes ∧ after.read path = .ok bytes

open Classical in
/-- The file at `path` is the archive of the members that are to be kept, each rewritten, in their
order. If such an archive can be read back, it is opened with these members and their data. -/
def Request.Repackaged (request : Request) (files after : FileSystem) (a : Artifact)
    (path : Path) : Prop :=
  ∃ input written, OpenArchive.load files a.file = .ok input ∧
    List.Forall₂ (Repackaging.Rewritten (request.editorOf? a) input)
      (input.archive.members.filter fun m => request.Keeps files a m.name) written ∧
    after.read path = .ok (Archive.encode written) ∧
    (Archive.ReadsBack written → ∃ output, OpenArchive.load after path = .ok output ∧
      List.Forall₂ output.Holds output.archive.members written)

/-- The file at `path` is what the artifact's output should be. -/
def Request.IsOutput (request : Request) (files after : FileSystem) (a : Artifact) (path : Path) :
    Prop :=
  if request.configuration.repackages a then request.Repackaged files after a path
  else Request.Copied files after a path

/-! ### Between two outputs -/

/-- The inputs are there and none of them is the log, so that they stay as they are where
everything is spared. -/
structure Request.InputsReady (request : Request) (e : Setting) (w : World) : Prop where
  exists_read : ∀ a ∈ request.configuration.classpath, ∃ bytes, w.files.read a.file = .ok bytes
  log : ∀ a ∈ request.configuration.classpath, e.log? ≠ some (a.file.landing e.root)

theorem Request.InputsReady.read_eq (hinputs : request.InputsReady e w₀) (hw₀ : w₀.Ready e)
    (hspares : World.Spares ∅ w₀ w) (ha : a ∈ request.configuration.classpath) :
    w.files.read a.file = w₀.files.read a.file := by
  obtain ⟨bytes, hbytes⟩ := hinputs.exists_read a ha
  rw [hbytes]
  exact hspares.read hw₀ (Set.notMem_empty _) (hinputs.log a ha) hbytes

/-- What holds before each output of a build that began in the state `w₀` and has come to `w`: it
was decided what to do with the inputs, and everything was spared since. -/
structure Underway (request : Request) (e : Setting) (w₀ : World) (assembly : Assembly)
    (w : World) : Prop where
  strict : request.configuration.strictCreate = true
  ready : w₀.Ready e
  inputs : request.InputsReady e w₀
  decided : assembly.Decided request
  analysed : assembly.Analysed request w₀
  spares : World.Spares ∅ w₀ w

namespace Underway

/-- The analysis is one of the files as they were when the build began. -/
theorem exists_analyze (h : Underway request e w₀ assembly w) {task : MinifyTask}
    (htask : request.configuration.minify? = some task) :
    ∃ retention, (Retention.analyze task w₀.files request.inputs).outcome.1 = .ok retention ∧
      assembly.retention? = some retention := by
  obtain ⟨retention, between, hbetween, hanalyze, hretention⟩ := h.analysed task htask
  have hsame : ∀ q ∈ request.inputs,
      OpenArchive.load between.files q = OpenArchive.load w₀.files q := by
    intro q hq
    obtain ⟨b, hb, rfl⟩ := List.mem_map.1 hq
    exact OpenArchive.load_congr (h.inputs.read_eq h.ready hbetween.1 hb)
  exact ⟨retention, Retention.analyze_congr task hsame ▸ hanalyze, hretention⟩

/-- What was decided agrees with what is asked for: every class member of an input is one of the
graph, and so it is dropped exactly if it is not reached. -/
theorem keeps_iff (h : Underway request e w₀ assembly w)
    (ha : a ∈ request.configuration.classpath) {input : OpenArchive}
    (hload : OpenArchive.load w₀.files a.file = .ok input) {m : Archive.Member}
    (hm : m ∈ input.archive.members) {p : Repackaging.Plan}
    (hp : p.keeps? = ArchiveOutput.keeps? request assembly a) :
    p.keeps m.name = true ↔ request.Keeps w₀.files a m.name := by
  unfold Repackaging.Plan.keeps Request.Keeps
  rw [hp]
  unfold ArchiveOutput.keeps?
  cases hminify : request.configuration.minify? with
  | none => simp
  | some task =>
    obtain ⟨retention, hanalyze, hretention⟩ := h.exists_analyze hminify
    rw [hretention]
    dsimp only
    by_cases haccepts : task.accepts a = true
    · rw [if_pos haccepts, Retention.keeps_member_iff hanalyze (List.mem_map_of_mem ha) hload hm]
      obtain ⟨hgraph, hentryPoints, -⟩ := Retention.analyze_eq_ok hanalyze
      constructor
      · rintro hkept task' X htask - hunit
        obtain rfl : task = task' := Option.some.inj htask
        exact ⟨retention.graph, retention.entryPoints, hgraph, hentryPoints, hkept X hunit⟩
      · intro hall X hunit
        obtain ⟨graph, entryPoints, hgraph', hentryPoints', hreaches⟩ :=
          hall task X rfl haccepts hunit
        obtain rfl := Except.ok.inj (hgraph.symm.trans hgraph')
        obtain rfl := Except.ok.inj (hentryPoints.symm.trans hentryPoints')
        exact hreaches
    · rw [if_neg haccepts]
      simp only [true_iff]
      intro task' X htask haccepts'
      obtain rfl : task = task' := Option.some.inj htask
      exact absurd haccepts' haccepts

end Underway

/-! ### One output -/

theorem Request.repackaged_of_read {path : Path} {input : OpenArchive}
    {written : List Archive.NewMember} {keeps : Archive.Member → Bool} {result : FileSystem}
    (hload : OpenArchive.load files a.file = .ok input)
    (hkeeps : ∀ m ∈ input.archive.members, keeps m = true ↔ request.Keeps files a m.name)
    (hwritten : List.Forall₂ (Repackaging.Rewritten (request.editorOf? a) input)
      (input.archive.members.filter keeps) written)
    (hread : result.read path = .ok (Archive.encode written)) :
    request.Repackaged files result a path := by
  classical
  have hfilter : (input.archive.members.filter fun m => request.Keeps files a m.name) =
      input.archive.members.filter keeps := by
    refine List.filter_congr fun m hm => ?_
    rw [Bool.eq_iff_iff, decide_eq_true_iff, hkeeps m hm]
  refine ⟨input, written, hload, ?_, hread, fun hback => ?_⟩
  · convert hwritten
  · exact hback.exists_load (Repackaging.method_of_forall₂_rewritten hwritten) hread

/-- An output is still one where it has the same bytes. -/
theorem Request.IsOutput.of_read {path : Path} {between result : FileSystem}
    (h : request.IsOutput files between a path)
    (hread : ∀ bytes, between.read path = .ok bytes → result.read path = .ok bytes) :
    request.IsOutput files result a path := by
  unfold IsOutput at h ⊢
  split_ifs at h ⊢
  · obtain ⟨input, written, hload, hwritten, hbytes, hback⟩ := h
    refine ⟨input, written, hload, hwritten, hread _ hbytes, fun h => ?_⟩
    obtain ⟨output, houtput, hmembers⟩ := hback h
    refine ⟨output, ?_, hmembers⟩
    rw [OpenArchive.load_congr ((hread _ hbytes).trans hbytes.symm), houtput]
  · obtain ⟨bytes, hinput, hbytes⟩ := h
    exact ⟨bytes, hinput, hread _ hbytes⟩

namespace ArchiveOutput

/-- The output that is written next is what it should be. It is not the log, so that it is left
alone by what is reported later. -/
theorem isOutput_of_writeOne (h : Underway request e w₀ assembly w)
    (ha : a ∈ request.configuration.classpath) {plan : Option Repackaging.Plan}
    (hplan : plan? request assembly a = .ok plan) {s s' : Statistics}
    (hrun : (writeOne request plan a (request.output a) s).outcome w = (.ok s', w')) :
    request.IsOutput w₀.files w'.files a (request.output a) ∧
      e.log? ≠ some ((request.output a).landing e.root) := by
  have hw : w.Ready e := h.spares.ready h.ready
  have hread : w.files.read a.file = w₀.files.read a.file :=
    h.inputs.read_eq h.ready h.spares ha
  rw [plan?_eq h.decided] at hplan
  obtain rfl := Except.ok.inj hplan
  unfold writeOne at hrun
  dsimp only at hrun
  unfold Request.IsOutput
  cases hrepackages : request.configuration.repackages a with
  | false =>
    rw [hrepackages] at hrun
    obtain ⟨_, w₁, hcopy, hrun⟩ := Session.outcome_bind_eq_ok.1 hrun
    rw [Session.outcome_pure, Prod.mk.injEq] at hrun
    obtain ⟨bytes, hinput, hbytes, hlog⟩ := Repackaging.copy_eq_ok hw (Or.inl h.strict) hcopy
    exact ⟨⟨bytes, hread ▸ hinput, hrun.2 ▸ hbytes⟩, hlog⟩
  | true =>
    rw [hrepackages] at hrun
    obtain ⟨stats, w₁, hrepackage, hrun⟩ := Session.outcome_bind_eq_ok.1 hrun
    rw [Session.outcome_pure, Prod.mk.injEq] at hrun
    obtain ⟨input, written, hopened, hwritten, hbytes, hlog⟩ :=
      Repackaging.repackage_eq_ok hw (Or.inl h.strict) hrepackage
    have hload : OpenArchive.load w₀.files a.file = .ok input :=
      OpenArchive.load_congr hread ▸ hopened
    refine ⟨?_, hlog⟩
    exact Request.repackaged_of_read hload (fun m hm => h.keeps_iff ha hload hm rfl) hwritten
      (hrun.2 ▸ hbytes)

theorem isOutput_of_writeNext (h : Underway request e w₀ assembly w)
    (ha : a ∈ request.configuration.classpath) {total index : Nat}
    (hrun : (writeNext request total assembly a index).outcome w = (.ok after, w')) :
    request.IsOutput w₀.files w'.files a (request.output a) ∧
      e.log? ≠ some ((request.output a).landing e.root) := by
  unfold writeNext at hrun
  dsimp only at hrun
  obtain ⟨_, w₁, hshow, hrun⟩ := Session.outcome_bind_eq_ok.1 hrun
  obtain ⟨plan, w₂, hlift, hrun⟩ := Session.outcome_bind_eq_ok.1 hrun
  obtain ⟨hplan, hw₂⟩ : plan? request assembly a = .ok plan ∧ w₁ = w₂ := by
    simpa [Session.outcome_lift] using hlift
  subst w₂
  obtain ⟨s, w₃, hwrite, hrun⟩ := Session.outcome_bind_eq_ok.1 hrun
  obtain ⟨size, w₄, hask, hrun⟩ := Session.outcome_bind_eq_ok.1 hrun
  obtain ⟨-, hw₄⟩ := Session.outcome_ask_eq_ok.1 hask
  rw [Session.outcome_pure, Prod.mk.injEq] at hrun
  rw [(outputName_eq h.decided hplan).1] at hwrite
  have hshown : World.Spares ∅ w w₁ := by
    refine Session.Within.relates ?_ (h.spares.ready h.ready) hshow
    exact .show (World.Spares.framing e ∅) _
  have houtput := isOutput_of_writeOne { h with spares := h.spares.trans hshown } ha hplan hwrite
  rwa [← hw₄, hrun.2] at houtput

/-- Writing an output leaves the build underway, and spares everything, since the output was not
there before. -/
theorem underway_of_writeNext (h : Underway request e w₀ assembly w) {total index : Nat}
    (hrun : (writeNext request total assembly a index).outcome w = (.ok after, w')) :
    Underway request e w₀ after w' ∧ World.Spares ∅ w w' := by
  obtain ⟨-, hafter, hretention⟩ := writeNext_eq_ok h.decided hrun
  have hnone : request.overwritten e.root a ⊆ ∅ := by
    rintro q ⟨hnot, -⟩
    simp [h.strict] at hnot
  have hspares : World.Spares ∅ w w' :=
    ((writeNext_within h.decided total a index).relates (h.spares.ready h.ready) hrun).mono hnone
  refine ⟨⟨h.strict, h.ready, h.inputs, hafter, ?_, h.spares.trans hspares⟩, hspares⟩
  unfold Assembly.Analysed
  rw [hretention]
  exact h.analysed

/-- When all outputs are written each of them is what it should be: it is when it is written, and
everything is spared from then on. -/
theorem isOutput_of_foldlM (h : Underway request e w₀ assembly w) {total : Nat}
    {as : List (Artifact × Nat)} (has : ∀ p ∈ as, p.1 ∈ request.configuration.classpath)
    (hrun : Session.outcome
      (as.foldlM (fun assembly p => writeNext request total assembly p.1 p.2) assembly) w =
        (.ok after, w')) :
    World.Spares ∅ w w' ∧
      ∀ p ∈ as, request.IsOutput w₀.files w'.files p.1 (request.output p.1) ∧
        e.log? ≠ some ((request.output p.1).landing e.root) := by
  induction as generalizing assembly w with
  | nil =>
    rw [List.foldlM_nil, Session.outcome_pure, Prod.mk.injEq] at hrun
    exact ⟨hrun.2 ▸ .refl _ _, by simp⟩
  | cons p as ih =>
    obtain ⟨a, index⟩ := p
    rw [List.foldlM_cons] at hrun
    obtain ⟨next, between, hfirst, hrest⟩ := Session.outcome_bind_eq_ok.1 hrun
    obtain ⟨hnext, hbetween⟩ := underway_of_writeNext h hfirst
    obtain ⟨hlater, hall⟩ := ih hnext (fun q hq => has q (List.mem_cons_of_mem _ hq)) hrest
    refine ⟨hbetween.trans hlater, fun q hq => ?_⟩
    rcases List.mem_cons.1 hq with rfl | hq
    · obtain ⟨houtput, hlog⟩ := isOutput_of_writeNext h (has (a, index) List.mem_cons_self) hfirst
      have hready : between.Ready e := hnext.spares.ready hnext.ready
      refine ⟨houtput.of_read fun bytes hbytes => ?_, hlog⟩
      exact hlater.read hready (Set.notMem_empty _) hlog hbytes
    · exact hall q hq

end ArchiveOutput

/-! ### The outputs of a build -/

/-- **The outputs of a build** that succeeds where no output may be there before: for each artifact
of the classpath, in its order, the element names a file in the output directory that is what the
artifact's output should be. -/
theorem build_outputs (hlog : w.LogReady)
    (hopen : ∀ a ∈ request.configuration.classpath,
      w.console.logFile? ≠ some (a.file.landing w.files.workingDirectory))
    (hstrict : request.configuration.strictCreate = true)
    (h : (build request).outcome w = (.ok after, w')) :
    List.Forall₂
      (fun a element =>
        request.IsOutput w.files w'.files a (request.outputDirectory.child element))
      request.configuration.classpath after.elements := by
  have hw : w.Ready w.setting := ⟨rfl, hlog⟩
  obtain ⟨hfiles, decided, written, w₁, w₂, w₃, w₄, hdecided, hanalysed, -, h₁, hwritten, h₃,
    hmanifest, h₄⟩ := build_eq_ok hw h
  obtain ⟨v₁, v₂, hv₁, hfold, hv₂⟩ :=
    ArchiveOutput.execute_eq_ok hdecided (h₁.1.ready hw) hwritten
  have hunderway : Underway request w.setting w decided v₁ :=
    ⟨hstrict, hw, ⟨hfiles, hopen⟩, hdecided, hanalysed, h₁.1.trans hv₁⟩
  obtain ⟨hfolded, hall⟩ := ArchiveOutput.isOutput_of_foldlM hunderway
    (fun p hp => hdecided.artifacts ▸ List.fst_mem_of_mem_zipIdx hp) hfold
  have hready : v₂.Ready w.setting := hfolded.ready (hunderway.spares.ready hw)
  -- After the outputs only the manifest is written, which was not there before either.
  have hlast : World.Spares ∅ w₃ w₄ := by
    have hw₃ : w₃.Ready w.setting := h₃.1.ready (hv₂.ready hready)
    have hwithin := (ManifestOutput.execute_within request written).relates hw₃ hmanifest
    rwa [if_pos hstrict] at hwithin
  have hend : World.Spares ∅ v₂ w' := ((hv₂.trans h₃.1).trans hlast).trans h₄.1
  rw [(elements_of_build hlog h).1, List.forall₂_map_right_iff, List.forall₂_same]
  intro a ha
  have hmem : a ∈ decided.artifacts.zipIdx.map Prod.fst := by
    rwa [List.zipIdx_map_fst, hdecided.artifacts]
  obtain ⟨p, hp, rfl⟩ := List.mem_map.1 hmem
  obtain ⟨houtput, hplace⟩ := hall p hp
  exact houtput.of_read fun bytes hbytes => hend.read hready (Set.notMem_empty _) hplace hbytes

/-- The archive of two classes, the first of which does not need the second. -/
def Sample.twoClasses : Bytes :=
  Archive.encode [Sample.member "X.class" (Sample.classFile "X" []),
    Sample.member "Y.class" (Sample.classFile "Y" [])]

/-- A build that drops the class `Y`. -/
theorem build_outputs_of_twoClasses :
    ∃ after w', (build ⟨Sample.configuration "/i/a.jar" true ["X"], "/o", none⟩).outcome
        (Sample.world "/i/a.jar" Sample.twoClasses) = (.ok after, w') ∧
      List.Forall₂ (fun a element =>
          Request.IsOutput ⟨Sample.configuration "/i/a.jar" true ["X"], "/o", none⟩
            (Sample.world "/i/a.jar" Sample.twoClasses).files w'.files a
            (Path.child "/o" element))
        [Sample.project "/i/a.jar"] after.elements := by
  have hclasspath : (Sample.configuration "/i/a.jar" true ["X"]).classpath =
      [Sample.project "/i/a.jar"] := by decide +kernel
  have hok : ((build ⟨Sample.configuration "/i/a.jar" true ["X"], "/o", none⟩).outcome
      (Sample.world "/i/a.jar" Sample.twoClasses)).1.toOption.isSome = true := by decide +kernel
  cases hrun : (build ⟨Sample.configuration "/i/a.jar" true ["X"], "/o", none⟩).outcome
      (Sample.world "/i/a.jar" Sample.twoClasses) with
  | mk result w' =>
    rw [hrun] at hok
    cases result with
    | error fault => simp [Except.toOption] at hok
    | ok after =>
      refine ⟨after, w', rfl, ?_⟩
      rw [← hclasspath]
      refine build_outputs ?_ ?_ rfl hrun
      · intro p hp
        simp [Sample.world] at hp
      · simp [Sample.world]

end Jarsmith.Build
